import AssetPack.Container.Entry
import AssetPack.Script.Report
import AssetPack.Proofs.Range
import AssetPack.Proofs.Reading
import AssetPack.Proofs.Script.Record

/-!
# Where a range stands does not matter

A cursor knows where its range starts in the medium, and it makes two uses of this. It says where an
access was refused, and it finds the next multiple of an alignment. The formats of this library
align to four bytes and to nothing else, so their decoders take the same bytes in the same way at
any two places that agree modulo four. They read the same value and stop equally far into the range,
or they stop there with the same error, whose offset is as far from the one start as from the other.

The notices of a decoder tell absolute offsets too, and nothing is said about them here.

## Main definitions

* `Bounds.Moved`, `RecordError.Moved`, `IndexError.Moved`: the same error at another place.
* `Progress.Moved`: the same progress at another place.
* `Decoder.Moves`: a decoder makes the same progress at two places.

## Main results

* `Decoder.Moves.bind`, `Decoder.Moves.times`: composite decoders.
* `Decoder.Moves.alignTo`: the only use of a position.
* `Medium.placement_modulo_four`: records, constants and entries, and records inside a medium.
-/

namespace AssetPack

open Script Container

/-! ### The same error at another place -/

/-- The same refusal in a range that starts at `base'` and not at `base`. -/
structure Bounds.Moved (base base' : Nat) (e e' : Bounds) : Prop where
  /-- The offset has moved with the range. -/
  offset : (e'.offset : Int) = e.offset + ((base' : Int) - base)
  /-- As much was asked for. -/
  length : e'.length = e.length
  /-- As much was left. -/
  available : e'.available = e.available

/-- The same error of a record in a range that starts at `base'` and not at `base`. -/
inductive Script.RecordError.Moved (base base' : Nat) : RecordError → RecordError → Prop where
  | badSignature (found : UInt32) : Moved base base' (.badSignature found) (.badSignature found)
  | truncated (part : Part) {e e' : Bounds} (h : Bounds.Moved base base' e e') :
    Moved base base' (.truncated part e) (.truncated part e')
  | unsupported (kind : ValueKind) : Moved base base' (.unsupported kind) (.unsupported kind)
  | unknownKind (number : UInt32) : Moved base base' (.unknownKind number) (.unknownKind number)

/-- The same error of an index in a range that starts at `base'` and not at `base`. What an entry
says about its asset is read from its bytes and does not move. -/
inductive Container.IndexError.Moved (base base' : Nat) : IndexError → IndexError → Prop where
  | badMagic (found : UInt32) : Moved base base' (.badMagic found) (.badMagic found)
  | negativeRange (index : Nat) (offset size : Int64) :
    Moved base base' (.negativeRange index offset size) (.negativeRange index offset size)
  | bounds {e e' : Bounds} (h : Bounds.Moved base base' e e') :
    Moved base base' (.bounds e) (.bounds e')

/-- Both succeed with the same value, or both fail with errors that correspond. -/
inductive SameOutcome {ε α : Type} (corr : ε → ε → Prop) : Except ε α → Except ε α → Prop where
  | ok (a : α) : SameOutcome corr (.ok a) (.ok a)
  | error {e e' : ε} (h : corr e e') : SameOutcome corr (.error e) (.error e')

theorem SameOutcome.mapError {ε ε' α : Type} {corr : ε → ε → Prop} {corr' : ε' → ε' → Prop}
    {f : ε → ε'} {r r' : Except ε α} (h : SameOutcome corr r r')
    (hcorr : ∀ e e', corr e e' → corr' (f e) (f e')) :
    SameOutcome corr' (r.mapError f) (r'.mapError f) := by
  cases h with
  | ok a => exact .ok a
  | error he => exact .error (hcorr _ _ he)

theorem SameOutcome.eq_ok_iff {ε α : Type} {corr : ε → ε → Prop} {r r' : Except ε α}
    (h : SameOutcome corr r r') (a : α) : r' = .ok a ↔ r = .ok a := by
  cases h with
  | ok a => rfl
  | error he => simp

/-- The same progress in a range that starts at `base'` and not at `base`. -/
structure Progress.Moved {ε α : Type} (corr : ε → ε → Prop) (base base' : Nat)
    (p p' : Progress ε α) : Prop where
  /-- The results correspond. -/
  outcome : SameOutcome corr p.outcome p'.outcome
  /-- The cursors stand equally far into their ranges, with the same bytes in front of them. -/
  cursor : ∃ pos rest, p.cursor = ⟨base, pos, rest⟩ ∧ p'.cursor = ⟨base', pos, rest⟩

namespace Decoder

variable {ε ε' α β : Type} {corr : ε → ε → Prop} {base base' : Nat}

/-- From any position, one decoder makes the same progress in a range at `base` as the other in the
same range at `base'`. The two may differ by what they know of the position. -/
def Moves (corr : ε → ε → Prop) (base base' : Nat) (d d' : Decoder ε α) : Prop :=
  ∀ (pos : Nat) (rest : Bytes),
    Progress.Moved corr base base' (d.run ⟨base, pos, rest⟩) (d'.run ⟨base', pos, rest⟩)

namespace Moves

/-! ### Combinators -/

protected theorem pure (a : α) : Moves corr base base' (pure a) (pure a) :=
  fun pos rest => ⟨.ok a, pos, rest, rfl, rfl⟩

protected theorem fail {e e' : ε} (h : corr e e') :
    Moves corr base base' (fail e : Decoder ε α) (fail e') :=
  fun pos rest => ⟨.error h, pos, rest, rfl, rfl⟩

protected theorem ofExcept {result : Except ε α} (h : ∀ e, result = .error e → corr e e) :
    Moves corr base base' (ofExcept result) (ofExcept result) := by
  refine fun pos rest => ⟨?_, pos, rest, rfl, rfl⟩
  cases result with
  | ok a => exact .ok a
  | error e => exact .error (h e rfl)

/-- What is noticed may depend on the place. -/
protected theorem note (n n' : Notice) : Moves corr base base' (note n) (note n') :=
  fun pos rest => ⟨.ok (), pos, rest, rfl, rfl⟩

protected theorem mapError {corr' : ε' → ε' → Prop} {f : ε → ε'} {d d' : Decoder ε α}
    (h : Moves corr base base' d d') (hcorr : ∀ e e', corr e e' → corr' (f e) (f e')) :
    Moves corr' base base' (mapError f d) (mapError f d') :=
  fun pos rest => ⟨(h pos rest).outcome.mapError hcorr, (h pos rest).cursor⟩

protected theorem lookahead {d d' : Decoder ε α} (h : Moves corr base base' d d') :
    Moves corr base base' (lookahead d) (lookahead d') :=
  fun pos rest => ⟨(h pos rest).outcome, pos, rest, rfl, rfl⟩

/-- **Sequencing.** The second decoders start equally far into their ranges. -/
protected theorem bind {d d' : Decoder ε α} {next next' : α → Decoder ε β}
    (h : Moves corr base base' d d') (hnext : ∀ a, Moves corr base base' (next a) (next' a)) :
    Moves corr base base' (d >>= next) (d' >>= next') := by
  intro pos rest
  obtain ⟨houtcome, pos', rest', hcursor, hcursor'⟩ := h pos rest
  generalize hfirst : (d.run ⟨base, pos, rest⟩).outcome = r at houtcome
  generalize hfirst' : (d'.run ⟨base', pos, rest⟩).outcome = r' at houtcome
  cases houtcome with
  | error he =>
    rw [run_bind_of_error next hfirst, run_bind_of_error next' hfirst']
    exact ⟨.error he, pos', rest', hcursor, hcursor'⟩
  | ok a =>
    rw [run_bind_of_ok next hfirst, run_bind_of_ok next' hfirst', hcursor, hcursor']
    exact ⟨(hnext a pos' rest').outcome, (hnext a pos' rest').cursor⟩

/-- What follows a look at the cursor may use the position, but has to come to the same. -/
theorem here_bind {next next' : Cursor → Decoder ε β}
    (h : ∀ pos rest, Moves corr base base' (next ⟨base, pos, rest⟩) (next' ⟨base', pos, rest⟩)) :
    Moves corr base base' (here >>= next) (here >>= next') :=
  fun pos rest => h pos rest pos rest

/-- **Counted repetition.** -/
protected theorem times {d d' : Decoder ε α} (h : Moves corr base base' d d') (count : Nat) :
    Moves corr base base' (times count d) (times count d') := by
  induction count with
  | zero => exact .pure []
  | succ count ih => exact h.bind fun a => ih.bind fun rest => .pure (a :: rest)

/-! ### Primitives -/

theorem shortfall_moved (base base' pos n : Nat) (rest : Bytes) :
    Bounds.Moved base base' (Cursor.shortfall ⟨base, pos, rest⟩ n)
      (Cursor.shortfall ⟨base', pos, rest⟩ n) := by
  refine ⟨?_, rfl, rfl⟩
  simp only [Cursor.shortfall, Cursor.position]
  omega

protected theorem readBytes (n : Nat) :
    Moves (Bounds.Moved base base') base base' (readBytes n) (readBytes n) := by
  intro pos rest
  rcases Nat.lt_or_ge rest.length n with hlt | hle
  · rw [run_readBytes_of_lt hlt, run_readBytes_of_lt hlt]
    exact ⟨.error (shortfall_moved base base' pos n rest), pos, rest, rfl, rfl⟩
  · rw [run_readBytes_of_le hle, run_readBytes_of_le hle]
    exact ⟨.ok _, pos + n, rest.drop n, rfl, rfl⟩

protected theorem peekBytes (n : Nat) :
    Moves (Bounds.Moved base base') base base' (peekBytes n) (peekBytes n) := by
  rw [peekBytes_eq_lookahead]
  exact (Moves.readBytes n).lookahead

protected theorem skip (n : Nat) :
    Moves (Bounds.Moved base base') base base' (skip n) (skip n) :=
  (Moves.readBytes n).bind fun _ => .pure ()

protected theorem peekByte : Moves (Bounds.Moved base base') base base' peekByte peekByte :=
  (Moves.peekBytes 1).bind fun _ => .pure _

protected theorem peekWord : Moves (Bounds.Moved base base') base base' peekWord peekWord :=
  (Moves.peekBytes 4).bind fun _ => .pure _

protected theorem readWord : Moves (Bounds.Moved base base') base base' readWord readWord :=
  (Moves.readBytes 4).bind fun _ => .pure _

protected theorem readLong : Moves (Bounds.Moved base base') base base' readLong readLong :=
  (Moves.readBytes 8).bind fun _ => .pure _

/-- **Aligning** passes over equally many bytes at places that agree modulo the alignment. -/
protected theorem alignTo {alignment : Nat} (h : base % alignment = base' % alignment) :
    Moves (Bounds.Moved base base') base base' (alignTo alignment) (alignTo alignment) := by
  intro pos rest
  have hpadding : Cursor.padding ⟨base', pos, rest⟩ alignment =
      Cursor.padding ⟨base, pos, rest⟩ alignment := by
    simp only [Cursor.padding, Cursor.position]
    rw [Nat.add_mod base', ← h, ← Nat.add_mod]
  change Progress.Moved _ _ _ ((skip _).run _) ((skip _).run _)
  rw [hpadding]
  exact Moves.skip _ pos rest

end Moves

end Decoder

open Decoder (Moves)

/-! ### Scripts -/

namespace Script

variable {base base' : Nat} {α : Type}

/-- A truncation of a part moves as the refusal does that it tells of. -/
theorem moves_part (part : Part) {d d' : Decoder Bounds α}
    (h : Moves (Bounds.Moved base base') base base' d d') :
    Moves (RecordError.Moved base base') base base' (Decoder.mapError (.truncated part) d)
      (Decoder.mapError (.truncated part) d') :=
  h.mapError fun _ _ he => .truncated part he

theorem Header.moves_decode :
    Moves (RecordError.Moved base base') base base' Header.decode Header.decode := by
  refine (moves_part _ (.peekBytes _)).bind fun bytes => (Moves.ofExcept ?_).bind fun header =>
    (moves_part _ (.skip _)).bind fun _ => ?_
  · intro e he
    rw [Header.ofBytes] at he
    split at he
    · cases he
    · cases he
      exact .badSignature _
  · dsimp only
    split
    · exact (Moves.note _ _).bind fun _ => .pure header
    · exact .pure header

theorem Identifier.moves_decode :
    Moves (RecordError.Moved base base') base base' Identifier.decode Identifier.decode :=
  (moves_part _ .peekWord).bind fun _ => (moves_part _ (.readBytes _)).bind fun _ => .pure _

theorem Span.moves_string (h : base % 4 = base' % 4) :
    Moves (RecordError.Moved base base') base base' Span.string Span.string :=
  .here_bind fun _ _ => (moves_part _ .readWord).bind fun _ =>
    (moves_part _ (.skip _)).bind fun _ => (moves_part _ (.alignTo h)).bind fun _ =>
    .here_bind fun _ _ => .pure _

theorem Span.moves_nodePath (h : base % 4 = base' % 4) :
    Moves (RecordError.Moved base base') base base' Span.nodePath Span.nodePath :=
  .here_bind fun _ _ => (moves_part _ .readWord).bind fun _ =>
    (moves_part _ .readWord).bind fun _ => (moves_part _ .readWord).bind fun _ =>
    ((Span.moves_string h).times _).bind fun _ => .here_bind fun _ _ => .pure _

theorem Span.moves_pool (elementSize : Nat) :
    Moves (RecordError.Moved base base') base base' (Span.pool elementSize)
      (Span.pool elementSize) :=
  (moves_part _ .readWord).bind fun _ => .pure _

theorem Span.moves_ofKind (h : base % 4 = base' % 4) (kind : ValueKind) (wide : Bool) :
    Moves (RecordError.Moved base base') base base' (Span.ofKind kind wide)
      (Span.ofKind kind wide) := by
  unfold Span.ofKind
  cases kind.layout with
  | fixed size => exact .pure _
  | number => exact .pure _
  | string => exact Span.moves_string h
  | nodePath => exact Span.moves_nodePath h
  | pool elementSize => exact Span.moves_pool elementSize
  | unsupported => exact .fail (.unsupported kind)

theorem Constant.moves_decode (h : base % 4 = base' % 4) :
    Moves (RecordError.Moved base base') base base' Constant.decode Constant.decode := by
  refine .here_bind fun _ _ => (moves_part _ .readWord).bind fun tag =>
    (Moves.ofExcept ?_).bind fun (kind, wide) => ?_
  · intro e he
    cases htag : ValueKind.ofTag tag with
    | ok found =>
      rw [htag] at he
      cases he
    | error number =>
      rw [htag] at he
      cases he
      exact .unknownKind number
  · have hmeasure : Moves (RecordError.Moved base base') base base' (Span.measure kind wide)
        (Span.measure kind wide) :=
      (Span.moves_ofKind h kind wide).lookahead.bind fun _ =>
        (moves_part _ (.peekBytes _)).bind fun _ => .pure _
    exact hmeasure.bind fun span => (moves_part _ (.readBytes _)).bind fun _ =>
      (moves_part _ (.skip _)).bind fun _ => (Moves.note _ _).bind fun _ => .pure _

theorem LineMap.moves_decodeInto (count : Nat) (map : LineMap) :
    Moves (RecordError.Moved base base') base base' (LineMap.decodeInto count map)
      (LineMap.decodeInto count map) := by
  induction count generalizing map with
  | zero => exact .pure map
  | succ count ih =>
    have hpair : Moves (RecordError.Moved base base') base base' LineMap.decodePair
        LineMap.decodePair :=
      (moves_part _ (.readBytes 8)).bind fun _ => .pure _
    refine hpair.bind fun (token, packed) => ?_
    dsimp only
    split
    · exact (Moves.note _ _).bind fun _ => ih _
    · exact (Moves.pure ()).bind fun _ => ih _

theorem Token.moves_decode :
    Moves (RecordError.Moved base base') base base' Token.decode Token.decode := by
  refine (moves_part _ .peekByte).bind fun first => ?_
  split
  · exact (moves_part _ .readWord).bind fun _ => .pure _
  · exact (moves_part _ (.skip 1)).bind fun _ => .pure _

/-- **A record is decoded in the same way** at places that agree modulo four. -/
theorem Record.moves_decode (h : base % 4 = base' % 4) :
    Moves (RecordError.Moved base base') base base' Record.decode Record.decode :=
  .here_bind fun _ _ => Header.moves_decode.bind fun _ => (Moves.note _ _).bind fun _ =>
    (Identifier.moves_decode.times _).bind fun _ =>
    ((Constant.moves_decode h).times _).bind fun _ => (LineMap.moves_decodeInto _ _).bind fun _ =>
    (Token.moves_decode.times _).bind fun _ => .here_bind fun _ _ =>
    (Moves.note _ _).bind fun _ => .pure _

end Script

/-! ### Entries -/

/-- **An entry is decoded in the same way** at places that agree modulo four. -/
theorem Container.Entry.moves_decode {base base' : Nat} (h : base % 4 = base' % 4) (index : Nat) :
    Moves (IndexError.Moved base base') base base' (Entry.decode index) (Entry.decode index) := by
  have hbounds : ∀ {α : Type} {d : Decoder Bounds α},
      Moves (Bounds.Moved base base') base base' d d →
      Moves (IndexError.Moved base base') base base' (Decoder.mapError .bounds d)
        (Decoder.mapError .bounds d) :=
    fun hd => hd.mapError fun _ _ he => .bounds he
  refine (hbounds .readWord).bind fun _ => (hbounds (.readBytes _)).bind fun _ =>
    (hbounds (.alignTo h)).bind fun _ => (hbounds .readLong).bind fun offset =>
    (hbounds .readLong).bind fun size => (hbounds (.readBytes 16)).bind fun _ =>
    (hbounds (.alignTo h)).bind fun _ => ?_
  split
  · exact .fail (.negativeRange index offset size)
  · exact .pure _

/-! ### Inside a medium -/

namespace Medium

/-- **Only the place modulo four matters.** At two places that agree modulo four, a record, a
constant and an entry are decoded from the same bytes in the same way. So a record at a multiple of
four inside a medium is decoded as if its bytes were alone. -/
theorem placement_modulo_four :
    (∀ (base base' pos : Nat) (rest : Bytes), base % 4 = base' % 4 →
      Progress.Moved (RecordError.Moved base base') base base'
          (Record.decode.run ⟨base, pos, rest⟩) (Record.decode.run ⟨base', pos, rest⟩) ∧
        Progress.Moved (RecordError.Moved base base') base base'
          (Constant.decode.run ⟨base, pos, rest⟩) (Constant.decode.run ⟨base', pos, rest⟩) ∧
        ∀ index, Progress.Moved (IndexError.Moved base base') base base'
          ((Entry.decode index).run ⟨base, pos, rest⟩)
          ((Entry.decode index).run ⟨base', pos, rest⟩)) ∧
    ∀ (m : Medium) (offset n : UInt64) (alone : Except RecordError Record),
      offset.toNat % 4 = 0 → offset.toNat + n.toNat ≤ m.data.length →
      alone = (Record.ofBytes ((m.data.drop offset.toNat).take n.toNat)).outcome →
      (∃ inside, (m.script offset (some n)).1 = inside.mapError .record ∧
        SameOutcome (RecordError.Moved 0 offset.toNat) alone inside) ∧
      ∀ r r', alone = .ok r → (m.script offset (some n)).1 = .ok r' →
        r'.listing = r.listing ∧ Report.text r' = Report.text r := by
  refine ⟨fun base base' pos rest h => ⟨Record.moves_decode h pos rest,
    Constant.moves_decode h pos rest, fun index => Entry.moves_decode h index pos rest⟩, ?_⟩
  rintro m offset n _ hmod hle rfl
  have hplace : 0 % 4 = offset.toNat % 4 := hmod.symm
  have hmoved := Record.moves_decode hplace 0 ((m.data.drop offset.toNat).take n.toNat)
  have hscript : (m.script offset (some n)).1 = Except.mapError ScriptError.record
      (Record.decode.run ⟨offset.toNat, 0, (m.data.drop offset.toNat).take n.toNat⟩).outcome := by
    simp only [script, cursor, range_of_le hle]
    rfl
  refine ⟨⟨_, hscript, hmoved.outcome⟩, fun r r' hr hr' => ?_⟩
  have hsame := (hmoved.outcome.eq_ok_iff r).2 hr
  rw [hscript, hsame] at hr'
  cases hr'
  exact ⟨rfl, rfl⟩

/-- A record behind four other bytes. -/
def recordAtFour : Medium := ⟨[0xCC, 0xCC, 0xCC, 0xCC] ++ Record.fullRecordBytes⟩

theorem placement_modulo_four_recordAtFour :
    3 % 4 = 7 % 4 ∧
      Progress.Moved (RecordError.Moved 3 7) 3 7 (Record.decode.run ⟨3, 0, Record.fullRecordBytes⟩)
        (Record.decode.run ⟨7, 0, Record.fullRecordBytes⟩) ∧
      UInt64.toNat 4 % 4 = 0 ∧ UInt64.toNat 4 + UInt64.toNat 65 ≤ recordAtFour.data.length ∧
      ∃ e e', (Record.ofBytes (Record.fullRecordBytes.take 65)).outcome = .error e ∧
        (recordAtFour.script 4 (some 65)).1 = .error (.record e') ∧ RecordError.Moved 0 4 e e' := by
  have hle : UInt64.toNat 4 + UInt64.toNat 65 ≤ recordAtFour.data.length := by decide
  obtain ⟨hplaces, hinside⟩ := placement_modulo_four
  obtain ⟨⟨inside, hscript, hsame⟩, -⟩ := hinside recordAtFour 4 65 _ rfl hle rfl
  refine ⟨rfl, (hplaces 3 7 0 Record.fullRecordBytes rfl).1, rfl, hle, ?_⟩
  have halone : (Record.ofBytes (Record.fullRecordBytes.take 65)).outcome =
      .error (.truncated .wideToken ⟨62, 4, 3⟩) := by rfl
  rw [hscript]
  change SameOutcome _ (Record.ofBytes (Record.fullRecordBytes.take 65)).outcome inside at hsame
  rw [halone] at hsame ⊢
  cases hsame with
  | error he => exact ⟨_, _, rfl, rfl, he⟩

end Medium

end AssetPack
