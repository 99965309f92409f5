import AssetPack.Decoder
import AssetPack.Proofs.Word

/-!
# What it means that a decoder reads a format

A *format* says which byte strings stand for which values. `Decoder.Reads` ties a decoder to a
format at one position of a range, in three clauses:

* what it accepts is in the format, and it passes over exactly those bytes;
* what is in the format it accepts, whatever follows;
* what is in the format but cut short is refused as cut short.

The third clause is not a consequence of the other two: a decoder could give up for another reason
before it notices that bytes are missing. The clauses are kept together because each composite
decoder needs all three of its parts.

The position is a parameter because formats pad to absolute multiples, so the same value may have
other bytes elsewhere. Which errors count as "cut short" is a parameter too (`short`), since every
layer states errors in its own terms.

## Main definitions

* `Format`: a relation between values and byte strings.
* `Format.seq`, `Format.list`: one format after another, and a format repeated.
* `Decoder.Reads`: the contract.

## Main results

* `Decoder.Reads.bind`, `Decoder.Reads.times`: the contract of composite decoders.
-/

namespace AssetPack

/-- Which byte strings stand for which values. -/
abbrev Format (α : Type) := α → Bytes → Prop

namespace Format

variable {α β : Type}

/-- The empty byte string, which stands for one value. -/
def empty (value : α) : Format α := fun a bytes => a = value ∧ bytes = []

/-- One format after another. The second may depend on the first value and on its bytes. -/
def seq (first : Format α) (next : α → Bytes → Format β) : Format β := fun b bytes =>
  ∃ a front back, first a front ∧ next a front b back ∧ bytes = front ++ back

/-- Values one after another, each in the format that belongs to its position. -/
def list (item : Nat → Format α) : Nat → Format (List α)
  | _, [], bytes => bytes = []
  | position, a :: rest, bytes =>
    ∃ front back, item position a front ∧ list item (position + front.length) rest back ∧
      bytes = front ++ back

/-- Where every value has one spelling, a list of values has one too: all spellings in a row. -/
theorem list_iff_flatMap {item : Nat → Format α} {encode : α → Bytes} {good : α → Prop}
    (hitem : ∀ position a bytes, item position a bytes ↔ good a ∧ bytes = encode a)
    {position : Nat} {values : List α} {bytes : Bytes} :
    list item position values bytes ↔ (∀ a ∈ values, good a) ∧ bytes = values.flatMap encode := by
  induction values generalizing position bytes with
  | nil => simp [list]
  | cons a rest ih =>
    simp only [list, hitem, ih, List.flatMap_cons, List.forall_mem_cons]
    constructor
    · rintro ⟨front, back, ⟨ha, rfl⟩, ⟨hrest, rfl⟩, rfl⟩
      exact ⟨⟨ha, hrest⟩, rfl⟩
    · rintro ⟨⟨ha, hrest⟩, rfl⟩
      exact ⟨encode a, rest.flatMap encode, ⟨ha, rfl⟩, ⟨hrest, rfl⟩, rfl⟩

/-- A value of a stored list is stored somewhere in it. -/
theorem exists_of_mem_list {item : Nat → Format α} {position : Nat} {values : List α}
    {bytes : Bytes} (h : list item position values bytes) {a : α} (ha : a ∈ values) :
    ∃ place front, item place a front := by
  induction values generalizing position bytes with
  | nil => cases ha
  | cons b rest ih =>
    obtain ⟨front, back, hfront, hback, -⟩ := h
    rcases List.mem_cons.1 ha with rfl | ha
    · exact ⟨position, front, hfront⟩
    · exact ih hback ha

/-- If every value takes some bytes, a list takes as many for each of its values. -/
theorem le_length_of_list {item : Nat → Format α} {least : Nat}
    (hitem : ∀ position a bytes, item position a bytes → least ≤ bytes.length) {position : Nat}
    {values : List α} {bytes : Bytes} (h : list item position values bytes) :
    least * values.length ≤ bytes.length := by
  induction values generalizing position bytes with
  | nil => exact Nat.zero_le _
  | cons a rest ih =>
    obtain ⟨front, back, hfront, hback, rfl⟩ := h
    rw [List.length_cons, Nat.mul_succ, List.length_append, Nat.add_comm]
    exact Nat.add_le_add (hitem position a front hfront) (ih hback)

end Format

/-- A byte string that is cut inside `front ++ back` is cut inside `front`, or behind it and inside
`back`. -/
theorem Bytes.cut_append {front back kept lost : Bytes} (h : front ++ back = kept ++ lost) :
    (∃ more, more ≠ [] ∧ front = kept ++ more) ∨
      (∃ some, kept = front ++ some ∧ back = some ++ lost) := by
  rcases List.append_eq_append_iff.mp h with ⟨some, hkept, hback⟩ | ⟨more, hfront, hlost'⟩
  · exact .inr ⟨some, hkept, hback⟩
  · cases more with
    | nil => exact .inr ⟨[], by simpa using hfront.symm, by simpa using hlost'.symm⟩
    | cons b more => exact .inl ⟨b :: more, by simp, hfront⟩

namespace Decoder

variable {ε ε' α β γ : Type}

/-! ### Regrouping -/

protected theorem bind_assoc (d : Decoder ε α) (f : α → Decoder ε β) (g : β → Decoder ε γ) :
    d >>= f >>= g = d >>= fun a => f a >>= g := by
  funext c
  change (d >>= f >>= g).run c = (d >>= fun a => f a >>= g).run c
  cases hd : (d.run c).outcome with
  | error e =>
    have hdf : ((d >>= f).run c).outcome = .error e := by rw [run_bind_of_error f hd]
    rw [run_bind_of_error _ hdf, run_bind_of_error _ hd, run_bind_of_error _ hd]
  | ok a =>
    have hdf := run_bind_of_ok f hd
    cases hf : ((f a).run (d.run c).cursor).outcome with
    | error e =>
      have hout : ((d >>= f).run c).outcome = .error e := by rw [hdf]; exact hf
      rw [run_bind_of_error g hout, run_bind_of_ok (fun a => f a >>= g) hd, run_bind_of_error g hf,
        hdf]
    | ok b =>
      have hout : ((d >>= f).run c).outcome = .ok b := by rw [hdf]; exact hf
      rw [run_bind_of_ok g hout, run_bind_of_ok (fun a => f a >>= g) hd, run_bind_of_ok g hf, hdf]
      simp

protected theorem pure_bind (a : α) (f : α → Decoder ε β) : pure a >>= f = f a := rfl

/-- What follows a decoder matters only where the decoder stops, and for what it gives there. -/
theorem run_bind_congr {d : Decoder ε α} {next next' : α → Decoder ε β} {c : Cursor}
    (h : ∀ a, (d.run c).outcome = .ok a →
      (next a).run (d.run c).cursor = (next' a).run (d.run c).cursor) :
    (d >>= next).run c = (d >>= next').run c := by
  cases hd : (d.run c).outcome with
  | error e => rw [run_bind_of_error next hd, run_bind_of_error next' hd]
  | ok a => rw [run_bind_of_ok next hd, run_bind_of_ok next' hd, h a hd]

/-- Peeking is reading ahead. -/
theorem peekBytes_eq_lookahead (n : Nat) : peekBytes n = lookahead (readBytes n) := by
  funext c
  simp only [peekBytes, lookahead, readBytes]
  cases c.peek n <;> rfl

/-- What is made from bytes that were read ahead could be made ahead. -/
theorem lookahead_bind_pure (d : Decoder ε α) (f : α → β) :
    (lookahead d >>= fun a => pure (f a)) = lookahead (d >>= fun a => pure (f a)) := by
  funext c
  simp only [lookahead, bind, Decoder.bind, pure, Decoder.pure]
  cases (d c).outcome <;> rfl

theorem peekByte_eq_lookahead : peekByte = lookahead readByte := by
  rw [peekByte, peekBytes_eq_lookahead, lookahead_bind_pure, readByte]

theorem peekWord_eq_lookahead : peekWord = lookahead readWord := by
  rw [peekWord, peekBytes_eq_lookahead, lookahead_bind_pure, readWord]

theorem mapError_lookahead (f : ε → ε') (d : Decoder ε α) :
    mapError f (lookahead d) = lookahead (mapError f d) := rfl

theorem run_mapError (f : ε → ε') (d : Decoder ε α) (c : Cursor) :
    (mapError f d).run c = ⟨(d.run c).outcome.mapError f, (d.run c).cursor, (d.run c).notices⟩ :=
  rfl

theorem run_skip_of_le {c : Cursor} {n : Nat} (h : n ≤ c.remaining) :
    (skip n).run c = ⟨.ok (), c.advance n, []⟩ := by
  have hbytes := run_readBytes_of_le h
  rw [skip, run_bind_of_ok _ (by rw [hbytes]), hbytes]
  rfl

/-- At a multiple of the alignment there is nothing to align. -/
theorem run_alignTo_of_dvd {c : Cursor} {alignment : Nat} (h : alignment ∣ c.position) :
    (alignTo alignment).run c = ⟨.ok (), c, []⟩ := by
  change (skip (c.padding alignment)).run c = _
  rw [Cursor.padding_of_dvd h, run_skip_of_le (Nat.zero_le _), Cursor.advance_zero]

/-! ### The contract -/

/-- The decoder reads the format at the position `pos` of a range that starts at `base`. -/
structure Reads (short : ε → Prop) (d : Decoder ε α) (base pos : Nat) (format : Format α) :
    Prop where
  /-- Accepted bytes are in the format, and the cursor is behind them. -/
  sound : ∀ {rest : Bytes} {a : α}, (d.run ⟨base, pos, rest⟩).outcome = .ok a →
    ∃ bytes tail, rest = bytes ++ tail ∧ format a bytes ∧
      (d.run ⟨base, pos, rest⟩).cursor = ⟨base, pos + bytes.length, tail⟩
  /-- Bytes in the format are accepted, whatever follows. -/
  complete : ∀ {a : α} {bytes : Bytes} (tail : Bytes), format a bytes →
    (d.run ⟨base, pos, bytes ++ tail⟩).outcome = .ok a ∧
      (d.run ⟨base, pos, bytes ++ tail⟩).cursor = ⟨base, pos + bytes.length, tail⟩
  /-- Bytes in the format with some missing at their end are refused for that reason. -/
  truncated : ∀ {a : α} {kept lost : Bytes}, format a (kept ++ lost) → lost ≠ [] →
    ∃ e, short e ∧ (d.run ⟨base, pos, kept⟩).outcome = .error e

namespace Reads

variable {short : ε → Prop} {short' : ε' → Prop} {base pos : Nat}

theorem congr {d : Decoder ε α} {format format' : Format α} (h : Reads short d base pos format)
    (hformat : ∀ a bytes, format a bytes ↔ format' a bytes) : Reads short d base pos format' := by
  have : format = format' := funext fun a => funext fun bytes => propext (hformat a bytes)
  rw [← this]
  exact h

/-- If every stored form ends at a multiple of four, the cursor is left at one. -/
theorem dvd_position {d : Decoder ε α} {c : Cursor} {format : Format α} {a : α}
    (h : Reads short d c.base c.pos format)
    (hlength : ∀ a bytes, format a bytes → 4 ∣ c.position + bytes.length)
    (hok : (d.run c).outcome = .ok a) : 4 ∣ (d.run c).cursor.position := by
  obtain ⟨base, pos, rest⟩ := c
  obtain ⟨bytes, tail, -, hformat, hcursor⟩ := h.sound hok
  rw [hcursor, Cursor.position, ← Nat.add_assoc]
  exact hlength a bytes hformat

protected theorem pure (a : α) :
    Reads short (pure a : Decoder ε α) base pos (Format.empty a) where
  sound := by
    intro rest a' h
    rw [run_pure, Except.ok.injEq] at h
    exact ⟨[], rest, rfl, ⟨h.symm, rfl⟩, rfl⟩
  complete := by
    rintro a' bytes tail ⟨rfl, rfl⟩
    exact ⟨rfl, rfl⟩
  truncated := by
    rintro a' kept lost ⟨-, hnil⟩ hlost
    exact absurd (List.append_eq_nil_iff.mp hnil).2 hlost

/-- A result that needs no bytes: only a success is in the format. -/
protected theorem ofExcept (result : Except ε α) :
    Reads short (ofExcept result) base pos fun a bytes => result = .ok a ∧ bytes = [] where
  sound := by
    intro rest a h
    exact ⟨[], rest, rfl, ⟨h, rfl⟩, rfl⟩
  complete := by
    rintro a bytes tail ⟨hresult, rfl⟩
    exact ⟨hresult, rfl⟩
  truncated := by
    rintro a kept lost ⟨-, hnil⟩ hlost
    exact absurd (List.append_eq_nil_iff.mp hnil).2 hlost

/-- No byte string is in the format of a decoder that always fails. -/
protected theorem fail (e : ε) :
    Reads short (fail e : Decoder ε α) base pos fun _ _ => False where
  sound := by intro rest a h; cases h
  complete := by intro a bytes tail h; exact h.elim
  truncated := by intro a kept lost h; exact h.elim

/-- Stating the errors in other terms changes no format. -/
protected theorem mapError {d : Decoder ε α} {format : Format α} {f : ε → ε'}
    (h : Reads short d base pos format) (hshort : ∀ e, short e → short' (f e)) :
    Reads short' (mapError f d) base pos format := by
  have houtcome : ∀ c, ((mapError f d).run c).outcome = (d.run c).outcome.mapError f :=
    fun _ => rfl
  have hcursor : ∀ c, ((mapError f d).run c).cursor = (d.run c).cursor := fun _ => rfl
  refine ⟨?_, ?_, ?_⟩
  · intro rest a hok
    rw [houtcome] at hok
    cases hd : (d.run ⟨base, pos, rest⟩).outcome with
    | error e => rw [hd] at hok; cases hok
    | ok a' =>
      rw [hd] at hok
      cases hok
      rw [hcursor]
      exact h.sound hd
  · intro a bytes tail hformat
    rw [houtcome, hcursor, (h.complete tail hformat).1]
    exact ⟨rfl, (h.complete tail hformat).2⟩
  · intro a kept lost hformat hlost
    obtain ⟨e, he, hd⟩ := h.truncated hformat hlost
    refine ⟨f e, hshort e he, ?_⟩
    rw [houtcome, hd]
    rfl

/-- **Sequencing.** What follows may depend on the value read and on how many bytes it took. -/
protected theorem bind {d : Decoder ε α} {next : α → Decoder ε β} {first : Format α}
    {second : α → Bytes → Format β} (hd : Reads short d base pos first)
    (hnext : ∀ a front, first a front →
      Reads short (next a) base (pos + front.length) (second a front)) :
    Reads short (d >>= next) base pos (Format.seq first second) where
  sound := by
    intro rest b hok
    cases hfirst : (d.run ⟨base, pos, rest⟩).outcome with
    | error e => rw [run_bind_of_error next hfirst] at hok; cases hok
    | ok a =>
      obtain ⟨front, tail, rfl, hfront, hcursor⟩ := hd.sound hfirst
      rw [run_bind_of_ok next hfirst, hcursor] at hok
      obtain ⟨back, tail', rfl, hback, hcursor'⟩ := (hnext a front hfront).sound hok
      refine ⟨front ++ back, tail', by simp, ⟨a, front, back, hfront, hback, rfl⟩, ?_⟩
      rw [run_bind_of_ok next hfirst, hcursor]
      simpa [Nat.add_assoc] using hcursor'
  complete := by
    rintro b bytes tail ⟨a, front, back, hfront, hback, rfl⟩
    obtain ⟨hfirst, hcursor⟩ := hd.complete (back ++ tail) hfront
    obtain ⟨hsecond, hcursor'⟩ := (hnext a front hfront).complete tail hback
    rw [List.append_assoc, run_bind_of_ok next hfirst, hcursor]
    exact ⟨hsecond, by simpa [Nat.add_assoc] using hcursor'⟩
  truncated := by
    rintro b kept lost ⟨a, front, back, hfront, hback, hcut⟩ hlost
    rcases Bytes.cut_append hcut.symm with ⟨more, hmore, rfl⟩ | ⟨some, rfl, rfl⟩
    · obtain ⟨e, he, hfirst⟩ := hd.truncated hfront hmore
      exact ⟨e, he, by rw [run_bind_of_error next hfirst]⟩
    · obtain ⟨hfirst, hcursor⟩ := hd.complete some hfront
      obtain ⟨e, he, hsecond⟩ := (hnext a front hfront).truncated hback hlost
      exact ⟨e, he, by rw [run_bind_of_ok next hfirst, hcursor]; exact hsecond⟩

/-- A value computed from what was read. -/
protected theorem map {d : Decoder ε α} {format : Format α} (h : Reads short d base pos format)
    (f : α → β) :
    Reads short (d >>= fun a => pure (f a)) base pos
      fun b bytes => ∃ a, format a bytes ∧ b = f a := by
  refine (h.bind fun a front _ => Reads.pure (f a)).congr fun b bytes => ?_
  constructor
  · rintro ⟨a, front, back, hfront, ⟨rfl, rfl⟩, rfl⟩
    exact ⟨a, by simpa using hfront, rfl⟩
  · rintro ⟨a, hformat, rfl⟩
    exact ⟨a, bytes, [], hformat, ⟨rfl, rfl⟩, by simp⟩

/-- Looking at the cursor reads nothing. What follows may use the position, but its format must be
the same whatever is still to be read. -/
theorem here_bind {next : Cursor → Decoder ε β} {format : Format β}
    (h : ∀ rest, Reads short (next ⟨base, pos, rest⟩) base pos format) :
    Reads short (here >>= next) base pos format where
  sound := fun {rest _} hok => (h rest).sound hok
  complete := fun {_ bytes} tail hformat => (h (bytes ++ tail)).complete tail hformat
  truncated := fun {_ kept _} hformat hlost => (h kept).truncated hformat hlost

/-- A notice on the way reads nothing. -/
theorem note_bind {n : Notice} {next : Unit → Decoder ε β} {format : Format β}
    (h : Reads short (next ()) base pos format) :
    Reads short (note n >>= next) base pos format where
  sound := fun hok => h.sound hok
  complete := fun tail hformat => h.complete tail hformat
  truncated := fun hformat hlost => h.truncated hformat hlost

/-- **Reading ahead.** What was seen decides how to go on, and what is read then must be at least as
long, so that it covers what was seen. -/
theorem lookahead_bind {d : Decoder ε α} {next : α → Decoder ε β} {first : Format α}
    (second : α → Format β) (hd : Reads short d base pos first)
    (hnext : ∀ a probe, first a probe → Reads short (next a) base pos (second a))
    (hlong : ∀ a probe b bytes, first a probe → second a b bytes →
      probe.length ≤ bytes.length) :
    Reads short (lookahead d >>= next) base pos
      fun b bytes => ∃ a probe, first a probe ∧ probe <+: bytes ∧ second a b bytes where
  sound := by
    intro rest b hok
    cases hfirst : (d.run ⟨base, pos, rest⟩).outcome with
    | error e => rw [run_bind_of_error next (d := lookahead d) hfirst] at hok; cases hok
    | ok a =>
      obtain ⟨probe, tail, hrest, hprobe, -⟩ := hd.sound hfirst
      rw [run_bind_of_ok next (d := lookahead d) hfirst] at hok ⊢
      obtain ⟨bytes, tail', hrest', hbytes, hcursor⟩ := (hnext a probe hprobe).sound hok
      have hsub : probe <+: bytes :=
        List.prefix_of_prefix_length_le ⟨tail, hrest.symm⟩ ⟨tail', hrest'.symm⟩
          (hlong a probe b bytes hprobe hbytes)
      exact ⟨bytes, tail', hrest', ⟨a, probe, hprobe, hsub, hbytes⟩, hcursor⟩
  complete := by
    rintro b bytes tail ⟨a, probe, hprobe, ⟨more, rfl⟩, hbytes⟩
    have hfirst := (hd.complete (more ++ tail) hprobe).1
    rw [← List.append_assoc] at hfirst
    rw [run_bind_of_ok next (d := lookahead d) hfirst]
    exact (hnext a probe hprobe).complete tail hbytes
  truncated := by
    rintro b kept lost ⟨a, probe, hprobe, ⟨more, hmore⟩, hbytes⟩ hlost
    rcases Bytes.cut_append hmore with ⟨missing, hmissing, rfl⟩ | ⟨some, rfl, -⟩
    · obtain ⟨e, he, hfirst⟩ := hd.truncated hprobe hmissing
      exact ⟨e, he, by rw [run_bind_of_error next (d := lookahead d) hfirst]⟩
    · have hfirst := (hd.complete some hprobe).1
      obtain ⟨e, he, hsecond⟩ := (hnext a probe hprobe).truncated hbytes hlost
      exact ⟨e, he, by rw [run_bind_of_ok next (d := lookahead d) hfirst]; exact hsecond⟩

/-- **Counted repetition.** -/
protected theorem times {d : Decoder ε α} (item : Nat → Format α)
    (h : ∀ pos, Reads short d base pos (item (base + pos))) (count : Nat) :
    Reads short (times count d) base pos fun values bytes =>
      values.length = count ∧ Format.list item (base + pos) values bytes := by
  induction count generalizing pos with
  | zero =>
    refine (Reads.pure []).congr fun values bytes => ?_
    cases values <;> simp [Format.empty, Format.list]
  | succ count ih =>
    refine ((h pos).bind fun a front _ => (@ih (pos + front.length)).map (a :: ·)).congr
      fun values bytes => ?_
    constructor
    · rintro ⟨a, front, back, hfront, ⟨rest, ⟨hlength, hrest⟩, rfl⟩, rfl⟩
      refine ⟨by simp [hlength], front, back, hfront, ?_, rfl⟩
      simpa [Nat.add_assoc] using hrest
    · rintro ⟨hlength, hlist⟩
      cases values with
      | nil => simp at hlength
      | cons a rest =>
        obtain ⟨front, back, hfront, hrest, rfl⟩ := hlist
        refine ⟨a, front, back, hfront, ⟨rest, ⟨by simpa using hlength, ?_⟩, rfl⟩, rfl⟩
        simpa [Nat.add_assoc] using hrest

/-! ### Primitives

A primitive is refused only when bytes are missing, so all its errors are of that sort. -/

/-- A run of `n` bytes stands for itself. -/
protected theorem readBytes (n : Nat) :
    Reads (fun _ => True) (readBytes n) base pos fun a bytes => bytes = a ∧ a.length = n where
  sound := by
    intro rest a hok
    rcases Nat.lt_or_ge (Cursor.remaining ⟨base, pos, rest⟩) n with hlt | hle
    · rw [run_readBytes_of_lt hlt] at hok
      cases hok
    · rw [run_readBytes_of_le hle] at hok ⊢
      have hlength : (rest.take n).length = n := List.length_take_of_le hle
      cases hok
      refine ⟨rest.take n, rest.drop n, (List.take_append_drop n rest).symm, ⟨rfl, hlength⟩, ?_⟩
      rw [hlength]
      rfl
  complete := by
    rintro a bytes tail ⟨rfl, rfl⟩
    have hle : bytes.length ≤ Cursor.remaining ⟨base, pos, bytes ++ tail⟩ := by
      simp [Cursor.remaining]
    rw [run_readBytes_of_le hle]
    simp [Cursor.advance]
  truncated := by
    rintro a kept lost ⟨rfl, rfl⟩ hlost
    have hlt : Cursor.remaining ⟨base, pos, kept⟩ < (kept ++ lost).length := by
      have := List.length_pos_iff.mpr hlost
      simp only [Cursor.remaining, List.length_append]
      omega
    exact ⟨_, trivial, by rw [run_readBytes_of_lt hlt]⟩

protected theorem skip (n : Nat) :
    Reads (fun _ => True) (skip n) base pos fun _ bytes => bytes.length = n := by
  refine ((Reads.readBytes n).map fun _ => ()).congr fun _ bytes => ?_
  constructor
  · rintro ⟨a, ⟨rfl, hlength⟩, -⟩
    exact hlength
  · intro hlength
    exact ⟨bytes, ⟨rfl, hlength⟩, rfl⟩

protected theorem readWord :
    Reads (fun _ => True) readWord base pos fun w bytes => bytes = LittleEndian.word w := by
  refine ((Reads.readBytes 4).map fun bytes => UInt32.ofNat (LittleEndian.decode bytes)).congr
    fun w bytes => ?_
  constructor
  · rintro ⟨a, ⟨rfl, hlength⟩, rfl⟩
    exact (LittleEndian.word_ofNat_decode hlength).symm
  · rintro rfl
    exact ⟨_, ⟨rfl, LittleEndian.length_word w⟩, (LittleEndian.ofNat_decode_word w).symm⟩

protected theorem readLong :
    Reads (fun _ => True) readLong base pos fun v bytes =>
      bytes = LittleEndian.long v.toUInt64 := by
  refine ((Reads.readBytes 8).map fun bytes =>
    (UInt64.ofNat (LittleEndian.decode bytes)).toInt64).congr fun v bytes => ?_
  constructor
  · rintro ⟨a, ⟨rfl, hlength⟩, rfl⟩
    rw [UInt64.toUInt64_toInt64, LittleEndian.long_ofNat_decode hlength]
  · rintro rfl
    refine ⟨_, ⟨rfl, LittleEndian.length_long _⟩, ?_⟩
    rw [LittleEndian.ofNat_decode_long, Int64.toInt64_toUInt64]

protected theorem readByte :
    Reads (fun _ => True) readByte base pos fun b bytes => bytes = [b] := by
  refine ((Reads.readBytes 1).map fun bytes => UInt8.ofNat (LittleEndian.decode bytes)).congr
    fun b bytes => ?_
  constructor
  · rintro ⟨a, ⟨rfl, hlength⟩, rfl⟩
    obtain ⟨x, rfl⟩ := List.length_eq_one_iff.mp hlength
    simp [LittleEndian.decode]
  · rintro rfl
    exact ⟨[b], ⟨rfl, rfl⟩, by simp [LittleEndian.decode]⟩

end Reads

end Decoder

end AssetPack
