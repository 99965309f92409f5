import AssetPack.Proofs.Shortfall

/-!
# Where a failed decoder leaves the cursor

Three styles of reading occur in the formats, and they leave the cursor in different places when
they fail. A decoder that looks before it reads leaves it where it was: the header, an identifier, a
token. A constant is measured on a copy of the cursor, so only its tag word can have been passed
over. Repetitions read as they go, and stop behind the last item that was there.

For a repetition that place is said without looking inside: it is where the longest repetition that
succeeds ends (`Decoder.times_error`). The pairs of a line map have a fixed size, so there the
number of pairs is what is left divided by eight.

## Main results

* `Decoder.times_error`: where a repetition stops.
* `Constant.decode_stop`, `LineMap.decodeInto_stop`: where a constant and a line map stop.
* `Cursor.after_failure`: where every decoder stops.
-/

namespace AssetPack

open Script Container

namespace Decoder

variable {ε ε' α β : Type}

/-! ### Looking before reading -/

/-- If what follows a decoder leaves the cursor alone when it fails, then a failure leaves it where
the first decoder did. -/
theorem cursor_of_firm_next {d : Decoder ε α} {next : α → Decoder ε β} {c : Cursor} {e : ε}
    (hnext : ∀ a, Firm (next a)) (h : ((d >>= next).run c).outcome = .error e) :
    ((d >>= next).run c).cursor = (d.run c).cursor := by
  obtain ⟨-, hcursor⟩ | ⟨a, -, hsecond, hcursor⟩ := error_of_bind h
  · exact hcursor
  · exact hcursor.trans (hnext a _ e hsecond)

theorem Still.mapError {d : Decoder ε α} (h : Still d) (f : ε → ε') : Still (mapError f d) := h

/-- A look ahead does not matter for where a failure leaves the cursor. -/
theorem Still.firm_bind {d : Decoder ε α} {next : α → Decoder ε β} (h : Still d)
    (hnext : ∀ a, Firm (next a)) : Firm (d >>= next) :=
  fun c _ he => (cursor_of_firm_next hnext he).trans (h c)

theorem readWord_cursor (c : Cursor) :
    (readWord.run c).cursor = if c.remaining < 4 then c else c.advance 4 := by
  rw [readWord, run_map_cursor]
  rcases Nat.lt_or_ge c.remaining 4 with hlt | hle
  · rw [run_readBytes_of_lt hlt, if_pos hlt]
  · rw [run_readBytes_of_le hle, if_neg (Nat.not_lt.mpr hle)]

/-! ### Repetitions -/

/-- After an item that was read, a repetition goes on with the others. -/
theorem times_succ_of_ok {d : Decoder ε α} {c : Cursor} {a : α} (h : (d.run c).outcome = .ok a)
    (count : Nat) :
    ((times (count + 1) d).run c).outcome =
        ((times count d).run (d.run c).cursor).outcome.map (a :: ·) ∧
      ((times (count + 1) d).run c).cursor = ((times count d).run (d.run c).cursor).cursor := by
  rw [times, run_bind_of_ok _ h]
  cases hrest : ((times count d).run (d.run c).cursor).outcome with
  | error e =>
    rw [run_bind_of_error _ hrest]
    exact ⟨rfl, rfl⟩
  | ok values =>
    rw [run_bind_of_ok _ hrest]
    exact ⟨rfl, rfl⟩

/-- **Where a repetition stops.** If so many items cannot be read, then there is a largest number of
items that can, and the cursor is left behind them. -/
theorem times_error {d : Decoder ε α} (hfirm : Firm d) {count : Nat} {c : Cursor} {e : ε}
    (h : ((times count d).run c).outcome = .error e) :
    ∃ k < count, (∃ values, ((times k d).run c).outcome = .ok values) ∧
      ((times count d).run c).cursor = ((times k d).run c).cursor ∧
      ∀ m, k < m → ∃ e', ((times m d).run c).outcome = .error e' := by
  induction count generalizing c with
  | zero => cases h
  | succ count ih =>
    cases hitem : (d.run c).outcome with
    | error e' =>
      -- the first item fails, and with it every repetition that is not empty
      have hfails : ∀ m, (times (m + 1) d).run c =
          ⟨.error e', (d.run c).cursor, (d.run c).notices⟩ := fun m => by
        rw [times, run_bind_of_error _ hitem]
      refine ⟨0, Nat.succ_pos count, ⟨[], rfl⟩, ?_, fun m hm => ?_⟩
      · rw [hfails count]
        exact hfirm c e' hitem
      · obtain ⟨m, rfl⟩ := Nat.exists_eq_add_one.mpr hm
        exact ⟨e', by rw [hfails m]⟩
    | ok a =>
      -- the others stop somewhere, and the first item is in front of them
      obtain ⟨houtcome, hcursor⟩ := times_succ_of_ok hitem count
      have hrest := map_eq_error_iff.1 (houtcome.symm.trans h)
      obtain ⟨k, hk, ⟨values, hvalues⟩, hstop, hmore⟩ := ih hrest
      obtain ⟨houtcome', hcursor'⟩ := times_succ_of_ok hitem k
      refine ⟨k + 1, Nat.succ_lt_succ hk, ⟨a :: values, ?_⟩, ?_, fun m hm => ?_⟩
      · rw [houtcome', hvalues]
        rfl
      · rw [hcursor, hcursor', hstop]
      · obtain ⟨m, rfl⟩ := Nat.exists_eq_add_one.mpr (Nat.zero_lt_of_lt hm)
        obtain ⟨e', he'⟩ := hmore m (Nat.lt_of_succ_lt_succ hm)
        refine ⟨e', ?_⟩
        rw [(times_succ_of_ok hitem m).1, he']
        rfl

end Decoder

namespace Script

/-! ### Parts that are looked at first -/

theorem Header.firm_decode : Header.decode.Firm := fun _ _ h => (Header.decode_error h).1

theorem Identifier.firm_decode : Identifier.decode.Firm :=
  (Decoder.still_peekWord.mapError _).firm_bind fun _ =>
    ((Decoder.firm_readBytes _).mapError _).map _

theorem Token.firm_decode : Token.decode.Firm := by
  refine (Decoder.still_peekByte.mapError _).firm_bind fun _ => ?_
  split
  · exact (Decoder.firm_readWord.mapError _).map _
  · exact ((Decoder.firm_skip 1).mapError _).map _

/-! ### Constants -/

namespace Constant

theorem firm_measure (kind : ValueKind) (wide : Bool) : (Span.measure kind wide).Firm := by
  have hprobe : (Decoder.lookahead (Span.ofKind kind wide)).Still := fun _ => rfl
  exact hprobe.firm_bind fun span =>
    (((Decoder.still_peekBytes span.consumed).mapError _).map _).firm

theorem firm_decodePayload (kind : ValueKind) (wide : Bool) (start : Nat) :
    (decodePayload kind wide start).Firm := by
  intro c e h
  have hmeasure := measure_error_of_decodePayload h
  rw [decodePayload, Decoder.run_bind_of_error _ hmeasure]
  exact firm_measure kind wide c e hmeasure

/-- **Where a constant stops.** Whatever is wrong with it, the cursor is behind the tag word, or
where it was if there is no tag word. -/
theorem decode_stop {c : Cursor} {e : RecordError} (h : (decode.run c).outcome = .error e) :
    (decode.run c).cursor = if c.remaining < 4 then c else c.advance 4 := by
  have hbehind : ∀ tag, (Decoder.ofExcept ((ValueKind.ofTag tag).mapError RecordError.unknownKind)
      >>= fun pair => decodePayload pair.1 pair.2 c.pos).Firm := fun tag =>
    Decoder.Still.firm_bind (fun _ => rfl) fun pair => firm_decodePayload pair.1 pair.2 c.pos
  have hcursor : (decode.run c).cursor =
      ((Decoder.mapError (RecordError.truncated .constantKind) Decoder.readWord).run c).cursor :=
    Decoder.cursor_of_firm_next hbehind h
  rw [hcursor]
  exact Decoder.readWord_cursor c

end Constant

/-! ### Line maps -/

namespace LineMap

/-- A pair is there if eight bytes are. -/
theorem decodePair_of_lt {c : Cursor} (h : c.remaining < 8) :
    (∃ e, (decodePair.run c).outcome = .error e) ∧ (decodePair.run c).cursor = c := by
  have hread : ((Decoder.mapError (RecordError.truncated .lineEntry) (Decoder.readBytes 8)).run
      c).outcome = .error (.truncated .lineEntry (c.shortfall 8)) := by
    rw [Decoder.run_mapError, Decoder.run_readBytes_of_lt h]
    rfl
  rw [decodePair, Decoder.run_bind_of_error _ hread, Decoder.run_mapError,
    Decoder.run_readBytes_of_lt h]
  exact ⟨⟨_, rfl⟩, rfl⟩

theorem decodePair_of_le {c : Cursor} (h : 8 ≤ c.remaining) :
    (∃ pair, (decodePair.run c).outcome = .ok pair) ∧ (decodePair.run c).cursor = c.advance 8 := by
  have hread : ((Decoder.mapError (RecordError.truncated .lineEntry) (Decoder.readBytes 8)).run
      c).outcome = .ok (c.rest.take 8) := by
    rw [Decoder.run_mapError, Decoder.run_readBytes_of_le h]
    rfl
  rw [decodePair, Decoder.run_bind_of_ok _ hread, Decoder.run_mapError,
    Decoder.run_readBytes_of_le h]
  exact ⟨⟨_, rfl⟩, rfl⟩

/-- After a pair that was read, the others are read into the larger map. -/
theorem decodeInto_succ_of_ok {c : Cursor} {pair : Int32 × UInt32} (count : Nat) (map : LineMap)
    (h : (decodePair.run c).outcome = .ok pair) :
    ((decodeInto (count + 1) map).run c).outcome =
        ((decodeInto count (map.insert pair.1 pair.2)).run (decodePair.run c).cursor).outcome ∧
      ((decodeInto (count + 1) map).run c).cursor =
        ((decodeInto count (map.insert pair.1 pair.2)).run (decodePair.run c).cursor).cursor := by
  obtain ⟨token, packed⟩ := pair
  rw [decodeInto, Decoder.run_bind_of_ok _ h]
  dsimp only
  split
  · exact ⟨rfl, rfl⟩
  · exact ⟨rfl, rfl⟩

/-- **Where a line map stops.** Behind the last pair that is there, which is not the last one that
was asked for. -/
theorem decodeInto_stop {count : Nat} {map : LineMap} {c : Cursor} {e : RecordError}
    (h : ((decodeInto count map).run c).outcome = .error e) :
    c.remaining / 8 < count ∧
      ((decodeInto count map).run c).cursor = c.advance (8 * (c.remaining / 8)) := by
  induction count generalizing map c with
  | zero => cases h
  | succ count ih =>
    rcases Nat.lt_or_ge c.remaining 8 with hlt | hle
    · obtain ⟨⟨e', hpair⟩, hstay⟩ := decodePair_of_lt hlt
      have hnone : c.remaining / 8 = 0 := Nat.div_eq_of_lt hlt
      rw [decodeInto, Decoder.run_bind_of_error _ hpair, hnone]
      exact ⟨Nat.succ_pos count, hstay⟩
    · obtain ⟨⟨pair, hpair⟩, hmoved⟩ := decodePair_of_le hle
      obtain ⟨houtcome, hcursor⟩ := decodeInto_succ_of_ok count map hpair
      rw [houtcome, hmoved] at h
      obtain ⟨hcount, hstop⟩ := ih h
      rw [Cursor.remaining_advance] at hcount hstop
      refine ⟨by omega, ?_⟩
      rw [hcursor, hmoved, hstop, Cursor.advance_advance]
      congr 1
      omega

end LineMap

/-! ### Tokens -/

/-- **Where a token stream stops.** Behind the longest stream that can be read. -/
theorem Token.decodeMany_stop {count : UInt32} {c : Cursor} {e : RecordError}
    (h : ((Token.decodeMany count).run c).outcome = .error e) :
    ∃ k < count, (∃ tokens, ((Token.decodeMany k).run c).outcome = .ok tokens) ∧
      ((Token.decodeMany count).run c).cursor = ((Token.decodeMany k).run c).cursor ∧
      ∀ m < count, (∃ tokens, ((Token.decodeMany m).run c).outcome = .ok tokens) → m ≤ k := by
  obtain ⟨k, hk, htokens, hcursor, hmore⟩ := Decoder.times_error Token.firm_decode h
  have hword : (UInt32.ofNat k).toNat = k := by
    rw [UInt32.toNat_ofNat', Nat.mod_eq_of_lt (Nat.lt_trans hk count.toNat_lt)]
  refine ⟨UInt32.ofNat k, ?_, ?_, ?_, fun m _ hm => ?_⟩
  · rw [UInt32.lt_iff_toNat_lt, hword]
    exact hk
  · rw [Token.decodeMany, hword]
    exact htokens
  · rw [Token.decodeMany, Token.decodeMany, hword, hcursor]
  · rw [UInt32.le_iff_toNat_le, hword]
    refine Nat.not_lt.mp fun hlt => ?_
    obtain ⟨tokens, htokens⟩ := hm
    obtain ⟨e', he'⟩ := hmore m.toNat hlt
    rw [Token.decodeMany, he'] at htokens
    cases htokens

end Script

/-- **Where a failed decoder leaves the cursor.** Header, identifier and token leave it where it
was. A constant leaves it behind the tag word, or where it was if there is none. A line map leaves
it behind the last pair that is there, and a token stream where the longest stream that can be read
ends. A record that has another signature or is too short for a header leaves it where it was, and
so does a container with another magic. -/
theorem Cursor.after_failure (c : Cursor) :
    (∀ e, (Script.Header.decode.run c).outcome = .error e →
      (Script.Header.decode.run c).cursor = c) ∧
    (∀ e, (Identifier.decode.run c).outcome = .error e → (Identifier.decode.run c).cursor = c) ∧
    (∀ e, (Token.decode.run c).outcome = .error e → (Token.decode.run c).cursor = c) ∧
    (∀ e, (Constant.decode.run c).outcome = .error e →
      (Constant.decode.run c).cursor = if c.remaining < 4 then c else c.advance 4) ∧
    (∀ count e, ((LineMap.decode count).run c).outcome = .error e →
      c.remaining / 8 < count.toNat ∧
        ((LineMap.decode count).run c).cursor = c.advance (8 * (c.remaining / 8))) ∧
    (∀ count e, ((Token.decodeMany count).run c).outcome = .error e →
      ∃ k < count, (∃ tokens, ((Token.decodeMany k).run c).outcome = .ok tokens) ∧
        ((Token.decodeMany count).run c).cursor = ((Token.decodeMany k).run c).cursor ∧
        ∀ m < count, (∃ tokens, ((Token.decodeMany m).run c).outcome = .ok tokens) → m ≤ k) ∧
    (∀ found, (Record.decode.run c).outcome = .error (.badSignature found) →
      (Record.decode.run c).cursor = c) ∧
    (∀ bounds, (Record.decode.run c).outcome = .error (.truncated .header bounds) →
      (Record.decode.run c).cursor = c) ∧
    (c.remaining < Script.Header.size → ∃ bounds,
      (Record.decode.run c).outcome = .error (.truncated .header bounds)) ∧
    ∀ found, (Container.Header.decode.run c).outcome = .error (.badMagic found) →
      (Container.Header.decode.run c).cursor = c := by
  refine ⟨Script.Header.firm_decode c, Identifier.firm_decode c, Token.firm_decode c,
    fun _ => Constant.decode_stop, fun _ _ => LineMap.decodeInto_stop,
    fun _ _ => Token.decodeMany_stop, fun found h => ?_, fun bounds h => ?_, fun h => ?_,
    fun found h => ?_⟩
  · obtain ⟨-, hstay⟩ | ⟨-, hbody⟩ := Record.decode_error h
    · exact hstay
    · cases hbody
  · obtain ⟨-, hstay⟩ | ⟨-, hbody⟩ := Record.decode_error h
    · exact hstay
    · cases hbody with
      | truncated hpart _ => exact absurd rfl hpart
  · obtain ⟨hheader, -⟩ := Script.Header.decode_of_lt h
    exact ⟨_, by rw [Record.run_decode, Decoder.run_bind_of_error _ hheader]⟩
  · obtain ⟨-, hstay⟩ | ⟨_, hcut, -⟩ := Container.Header.decode_error h
    · exact hstay
    · cases hcut

/-- Bytes that are too few for whatever they start: a header, an identifier of fifteen bytes, a node
path, two pairs of a line map, and tokens of which the last is cut off. -/
def tooFew : Bytes := [15, 0, 0, 0, 1, 0, 0, 0, 0x17, 0x81, 0, 0]

theorem Cursor.after_failure_tooFew :
    (∃ e, (Identifier.decode.run (start tooFew 5)).outcome = .error e) ∧
      (Identifier.decode.run (start tooFew 5)).cursor = start tooFew 5 ∧
    (∃ e, (Constant.decode.run (start tooFew 5)).outcome = .error e) ∧
      (Constant.decode.run (start tooFew 5)).cursor = (start tooFew 5).advance 4 ∧
    (∃ e, ((LineMap.decode 3).run (start tooFew 5)).outcome = .error e) ∧
      ((LineMap.decode 3).run (start tooFew 5)).cursor = (start tooFew 5).advance 8 ∧
    (∃ e, ((Token.decodeMany 12).run (start tooFew 5)).outcome = .error e) ∧
      (∃ k < 12, ((Token.decodeMany 12).run (start tooFew 5)).cursor =
          ((Token.decodeMany k).run (start tooFew 5)).cursor ∧ 9 ≤ k) ∧
    (∃ e, (Token.decode.run ((start tooFew 5).advance 9)).outcome = .error e) ∧
      (Token.decode.run ((start tooFew 5).advance 9)).cursor = (start tooFew 5).advance 9 ∧
    (∃ bounds, (Record.decode.run (start tooFew 5)).outcome =
        .error (.truncated .header bounds)) ∧
      (Record.decode.run (start tooFew 5)).cursor = start tooFew 5 ∧
    (Record.decode.run (start (tooFew ++ tooFew))).outcome = .error (.badSignature 15) ∧
      (Record.decode.run (start (tooFew ++ tooFew))).cursor = start (tooFew ++ tooFew) ∧
    (Container.Header.decode.run (start tooFew 5)).outcome = .error (.badMagic 15) ∧
      (Container.Header.decode.run (start tooFew 5)).cursor = start tooFew 5 := by
  obtain ⟨-, hidentifier, -, hconstant, hlines, htokens, -, htruncated, hshort, hmagic⟩ :=
    after_failure (start tooFew 5)
  obtain ⟨-, -, htoken, -⟩ := after_failure ((start tooFew 5).advance 9)
  obtain ⟨-, -, -, -, -, -, hsignature, -⟩ := after_failure (start (tooFew ++ tooFew))
  obtain ⟨k, hk, -, hcursor, hlongest⟩ := htokens 12 _ rfl
  obtain ⟨bounds, hheader⟩ := hshort (by decide)
  exact ⟨⟨_, rfl⟩, hidentifier _ rfl, ⟨_, rfl⟩, hconstant _ rfl, ⟨_, rfl⟩, (hlines 3 _ rfl).2,
    ⟨_, rfl⟩, ⟨k, hk, hcursor, hlongest 9 (by decide) ⟨_, rfl⟩⟩, ⟨_, rfl⟩, htoken _ rfl,
    ⟨bounds, hheader⟩, htruncated bounds hheader, rfl, hsignature 15 rfl, rfl, hmagic 15 rfl⟩

end AssetPack
