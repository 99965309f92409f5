import AssetPack.Proofs.Text.Utf8
import Mathlib.Algebra.Group.Nat.Defs
import Mathlib.Data.List.DropRight

/-!
# Padding behind a text that may be damaged

A stored text is filled up with NULs, and they are taken off after it was read as UTF-8. This could
go wrong in two places. The text may end inside a multi-byte sequence, so that the first NUL is what
breaks the sequence, and without the NUL it is the end of the bytes. And a NUL that was read need
not have been a NUL byte, if some sequence came to a NUL too.

Neither happens, because of what the transducer can hold. `Pending.Sound` says it of a sequence that
has begun: no ASCII byte continues it, and whatever it comes to is a character other than NUL. Every
lead byte opens such a sequence (`sound_of_opening`) and every step keeps it so (`sound_step`).
Hence an ASCII byte stands for its character wherever it is (`decodeFrom_append_ascii`), and only
NUL bytes are read as NULs.

## Main definitions

* `Pending.Sound`: the invariant of the transducer.
* `PaddedReading`: the laws of a reader of padded texts.

## Main results

* `text_append_nuls`: NULs behind the bytes make no difference.
* `text_inner_nuls`: NULs between other bytes are kept.
* `PaddedReading.of_text`: what reads as `Utf8.text` does obeys the laws.
-/

namespace AssetPack.Utf8

/-! ### Sequences that have begun -/

namespace Pending

/-- The least value that a sequence can still come to. -/
def least (p : Pending) : Nat := (p.bits * 64 + (p.low.toNat - 0x80)) * 64 ^ p.more

/-- The value right past the greatest that a sequence can still come to. -/
def past (p : Pending) : Nat := (p.bits * 64 + (p.high.toNat - 0x80) + 1) * 64 ^ p.more

/-- No ASCII byte continues the sequence, and all it can come to are characters other than NUL. -/
structure Sound (p : Pending) : Prop where
  tail : 0x80 ≤ p.low.toNat
  pos : 0 < p.least
  scalar : p.past ≤ 0xD800 ∨ 0xE000 ≤ p.least ∧ p.past ≤ 0x110000

instance (p : Pending) : Decidable p.Sound :=
  decidable_of_iff (0x80 ≤ p.low.toNat ∧ 0 < p.least ∧
      (p.past ≤ 0xD800 ∨ 0xE000 ≤ p.least ∧ p.past ≤ 0x110000))
    ⟨fun ⟨h₁, h₂, h₃⟩ => ⟨h₁, h₂, h₃⟩, fun h => ⟨h.tail, h.pos, h.scalar⟩⟩

/-- One byte more narrows down what a sequence can come to. -/
theorem Sound.narrow {bits more : Nat} {low high b : UInt8}
    (h : Sound ⟨bits, more + 1, low, high⟩) (hlow : low ≤ b) (hhigh : b ≤ high) :
    Sound ⟨bits * 64 + (b.toNat - 0x80), more, 0x80, 0xBF⟩ := by
  obtain ⟨htail, hpos, hscalar⟩ := h
  have hfirst : (0x80 : UInt8).toNat = 0x80 := rfl
  have hlast : (0xBF : UInt8).toNat = 0xBF := rfl
  rw [UInt8.le_iff_toNat_le] at hlow hhigh
  simp only [least, past, Nat.pow_succ', ← Nat.mul_assoc] at htail hpos hscalar
  have hleast : (bits * 64 + (low.toNat - 0x80)) * 64 * 64 ^ more ≤
      least ⟨bits * 64 + (b.toNat - 0x80), more, 0x80, 0xBF⟩ := by
    simp only [least, hfirst]
    exact Nat.mul_le_mul_right _ (by omega)
  have hpast : past ⟨bits * 64 + (b.toNat - 0x80), more, 0x80, 0xBF⟩ ≤
      (bits * 64 + (high.toNat - 0x80) + 1) * 64 * 64 ^ more := by
    simp only [past, hlast]
    exact Nat.mul_le_mul_right _ (by omega)
  refine ⟨Nat.le_of_eq hfirst.symm, Nat.lt_of_lt_of_le hpos hleast, ?_⟩
  rcases hscalar with hbelow | ⟨habove, hend⟩
  · exact .inl (Nat.le_trans hpast hbelow)
  · exact .inr ⟨Nat.le_trans habove hleast, Nat.le_trans hpast hend⟩

/-- What a sequence comes to is not NUL. -/
theorem Sound.ofNat_ne_nul {bits : Nat} {low high b : UInt8} (h : Sound ⟨bits, 0, low, high⟩)
    (hlow : low ≤ b) (hhigh : b ≤ high) :
    Char.ofNat (bits * 64 + (b.toNat - 0x80)) ≠ Char.ofNat 0 := by
  obtain ⟨htail, hpos, hscalar⟩ := h
  rw [UInt8.le_iff_toNat_le] at hlow hhigh
  simp only [least, past, Nat.pow_zero, Nat.mul_one] at htail hpos hscalar
  generalize hvalue : bits * 64 + (b.toNat - 0x80) = value
  have hvalid : value.isValidChar := by
    rw [Nat.isValidChar]
    omega
  intro heq
  have hnat : (Char.ofNat value).toNat = value := by
    rw [Char.ofNat, dif_pos hvalid]
    rfl
  rw [heq] at hnat
  have hzero : 0 = value := hnat
  omega

end Pending

/-- Every lead byte opens a sound sequence. -/
theorem sound_of_opening {b : UInt8} {p : Pending} (h : opening b = some p) : p.Sound := by
  have hall : ∀ n < 256, ∀ p ∈ opening (UInt8.ofNat n), p.Sound := by decide +kernel
  exact hall b.toNat b.toNat_lt p (by rw [UInt8.ofNat_toNat]; exact h)

theorem sound_fresh (b : UInt8) : ∀ p ∈ (fresh b).2, p.Sound := by
  intro p hp
  rw [fresh] at hp
  split at hp
  · cases hp
  · split at hp
    · next opened hopening =>
      cases hp
      exact sound_of_opening hopening
    · cases hp

/-- **A step keeps the invariant.** -/
theorem sound_step {state : Option Pending} (h : ∀ p ∈ state, p.Sound) (b : UInt8) :
    ∀ p ∈ (step state b).2, p.Sound := by
  cases state with
  | none => exact sound_fresh b
  | some p =>
    obtain ⟨bits, more, low, high⟩ := p
    rw [step]
    split
    · next hrange =>
      rw [Bool.and_eq_true, decide_eq_true_eq, decide_eq_true_eq] at hrange
      cases more with
      | zero => simp
      | succ more =>
        intro p hp
        rw [← Option.mem_some.1 hp]
        exact (h _ rfl).narrow hrange.1 hrange.2
    · exact sound_fresh b

/-! ### ASCII bytes -/

theorem decodeFrom_cons (state : Option Pending) (b : UInt8) (rest : Bytes) :
    decodeFrom state (b :: rest) = (step state b).1 ++ decodeFrom (step state b).2 rest := by
  cases state <;> rfl

/-- An ASCII byte ends what has begun and stands for itself. -/
theorem step_ascii {state : Option Pending} (h : ∀ p ∈ state, p.Sound) {b : UInt8}
    (hb : b < 0x80) : step state b = (decodeFrom state [] ++ [Char.ofNat b.toNat], none) := by
  cases state with
  | none => simp [step, fresh, decodeFrom, hb]
  | some p =>
    have hrange : ¬ p.low ≤ b := by
      have htail := (h p rfl).tail
      rw [UInt8.lt_iff_toNat_lt] at hb
      rw [UInt8.le_iff_toNat_le]
      have hvalue : (0x80 : UInt8).toNat = 0x80 := rfl
      omega
    simp [step, fresh, decodeFrom, hb, hrange]

/-- **An ASCII byte stands for its character wherever it is**, and what is before it is read as if
the bytes ended there. -/
theorem decodeFrom_append_ascii {state : Option Pending} (h : ∀ p ∈ state, p.Sound) {b : UInt8}
    (hb : b < 0x80) (front back : Bytes) :
    decodeFrom state (front ++ b :: back) =
      decodeFrom state front ++ Char.ofNat b.toNat :: decodeFrom none back := by
  induction front generalizing state with
  | nil =>
    rw [List.nil_append, decodeFrom_cons, step_ascii h hb, List.append_assoc]
    rfl
  | cons c front ih =>
    rw [List.cons_append, decodeFrom_cons, decodeFrom_cons, ih (sound_step h c), List.append_assoc]

theorem decode_append_nuls (front back : Bytes) (n : Nat) :
    decode (front ++ List.replicate (n + 1) 0 ++ back) =
      decode front ++ List.replicate (n + 1) (Char.ofNat 0) ++ decode back := by
  induction n generalizing front with
  | zero =>
    rw [List.append_assoc, List.append_assoc]
    exact decodeFrom_append_ascii (by simp) (by decide) front back
  | succ n ih =>
    have hfront := ih (front ++ [0])
    have hfirst : decode (front ++ [0]) = decode front ++ [Char.ofNat 0] :=
      decodeFrom_append_ascii (by simp) (by decide) front []
    rw [hfirst] at hfront
    simpa [List.replicate_succ] using hfront

/-! ### Other bytes are no NULs -/

/-- A byte other than NUL writes no NUL. -/
theorem nul_not_mem_step {state : Option Pending} (h : ∀ p ∈ state, p.Sound) {b : UInt8}
    (hb : b ≠ 0) : Char.ofNat 0 ∉ (step state b).1 := by
  have hreplacement : Char.ofNat 0 ≠ replacement := by decide
  have hfresh : Char.ofNat 0 ∉ (fresh b).1 := by
    rw [fresh]
    split
    · have hne : ∀ n < 128, n ≠ 0 → Char.ofNat 0 ≠ Char.ofNat n := by decide
      next hascii =>
      rw [List.mem_singleton]
      refine hne b.toNat (UInt8.lt_iff_toNat_lt.1 hascii) fun hzero => hb ?_
      exact UInt8.toNat_inj.1 hzero
    · split
      · simp
      · simpa using hreplacement
  cases state with
  | none => exact hfresh
  | some p =>
    obtain ⟨bits, more, low, high⟩ := p
    rw [step]
    split
    · next hrange =>
      rw [Bool.and_eq_true, decide_eq_true_eq, decide_eq_true_eq] at hrange
      cases more with
      | zero => simpa using ((h _ rfl).ofNat_ne_nul hrange.1 hrange.2).symm
      | succ more => simp
    · simpa [hreplacement] using hfresh

theorem step_ne_nil_of_none {state : Option Pending} {b : UInt8} (h : (step state b).2 = none) :
    (step state b).1 ≠ [] := by
  have hfresh : (fresh b).2 = none → (fresh b).1 ≠ [] := by
    rw [fresh]
    split
    · simp
    · split <;> simp
  cases state with
  | none => exact hfresh h
  | some p =>
    obtain ⟨bits, more, low, high⟩ := p
    rw [step] at h ⊢
    split at h
    · next hrange =>
      rw [if_pos hrange]
      cases more with
      | zero => simp
      | succ more => simp at h
    · next hrange =>
      rw [if_neg hrange]
      simp

theorem decodeFrom_ne_nil {state : Option Pending} {bytes : Bytes}
    (h : state ≠ none ∨ bytes ≠ []) : decodeFrom state bytes ≠ [] := by
  induction bytes generalizing state with
  | nil =>
    cases state with
    | none => simp at h
    | some p => simp [decodeFrom]
  | cons b rest ih =>
    rw [decodeFrom_cons]
    by_cases hopen : (step state b).2 = none
    · exact List.append_ne_nil_of_left_ne_nil (step_ne_nil_of_none hopen) _
    · exact List.append_ne_nil_of_right_ne_nil _ (ih (.inl hopen))

/-- Bytes that do not end in a NUL are not read as if they did. -/
theorem getLast?_decodeFrom {state : Option Pending} (h : ∀ p ∈ state, p.Sound) {bytes : Bytes}
    (hlast : bytes.getLast? ≠ some 0) :
    (decodeFrom state bytes).getLast? ≠ some (Char.ofNat 0) := by
  have hend : ∀ state : Option Pending, (decodeFrom state []).getLast? ≠ some (Char.ofNat 0) := by
    intro state
    cases state with
    | none => simp [decodeFrom]
    | some p => simp [decodeFrom, replacement]
  induction bytes generalizing state with
  | nil => exact hend state
  | cons b rest ih =>
    rw [decodeFrom_cons]
    by_cases hrest : rest = []
    · subst hrest
      have hb : b ≠ 0 := by simpa using hlast
      rw [List.getLast?_append]
      intro heq
      rcases Option.or_eq_some_iff.1 heq with hstate | ⟨-, hout⟩
      · exact hend _ hstate
      · exact nul_not_mem_step h hb (List.mem_of_getLast? hout)
    · rw [List.getLast?_append_of_ne_nil _ (decodeFrom_ne_nil (.inr hrest))]
      refine ih (sound_step h b) ?_
      rwa [List.getLast?_cons_of_ne_nil hrest] at hlast

/-! ### Taking the NULs off -/

theorem getLast?_trimNuls (chars : List Char) :
    (trimNuls chars).getLast? ≠ some (Char.ofNat 0) := by
  intro h
  have hne : trimNuls chars ≠ [] := by
    intro hnil
    simp [hnil] at h
  have hlast := List.rdropWhile_last_not (· == Char.ofNat 0) chars hne
  rw [List.getLast?_eq_some_getLast hne, Option.some.injEq] at h
  exact hlast (beq_iff_eq.2 h)

/-- Nothing but NULs is taken off. -/
theorem exists_eq_trimNuls_append (chars : List Char) :
    ∃ n, chars = trimNuls chars ++ List.replicate n (Char.ofNat 0) := by
  have hnuls : ∀ c ∈ chars.rtakeWhile (· == Char.ofNat 0), c = Char.ofNat 0 := by
    intro c hc
    simpa using List.mem_rtakeWhile_imp hc
  refine ⟨(chars.rtakeWhile (· == Char.ofNat 0)).length, ?_⟩
  rw [← List.eq_replicate_of_mem hnuls]
  exact List.rdropWhile_append_rtakeWhile.symm

theorem trimNuls_eq_self {chars : List Char} (h : chars.getLast? ≠ some (Char.ofNat 0)) :
    trimNuls chars = chars := by
  simpa using trimNuls_append_nuls h 0

theorem trimNuls_append {front back : List Char} (h : trimNuls back ≠ []) :
    trimNuls (front ++ back) = front ++ trimNuls back := by
  have hdrop : back.reverse.dropWhile (· == Char.ofNat 0) ≠ [] := by
    intro hnil
    exact h (by rw [trimNuls, hnil]; rfl)
  rw [trimNuls, trimNuls, List.reverse_append, List.dropWhile_append, if_neg (by simpa using hdrop),
    List.reverse_append, List.reverse_reverse]

theorem trimNuls_append_replicate (chars : List Char) (n : Nat) :
    trimNuls (chars ++ List.replicate n (Char.ofNat 0)) = trimNuls chars := by
  rw [trimNuls, trimNuls, List.reverse_append, List.reverse_replicate,
    List.dropWhile_append_of_pos (by simp)]

/-! ### Texts -/

theorem text_ofText (s : String) : text (Bytes.ofText s) = String.ofList (trimNuls s.toList) := by
  have h := decode_ofText_append s []
  rw [List.append_nil, show decode [] = [] from rfl, List.append_nil] at h
  rw [text, h]

theorem getLast?_text (bytes : Bytes) :
    (text bytes).toList.getLast? ≠ some (Char.ofNat 0) := by
  rw [text, String.toList_ofList]
  exact getLast?_trimNuls _

/-- **NULs behind the bytes make no difference**, whatever the bytes are. -/
theorem text_append_nuls (bytes : Bytes) (n : Nat) :
    text (bytes ++ List.replicate n 0) = text bytes := by
  cases n with
  | zero => simp
  | succ n =>
    have h := decode_append_nuls bytes [] n
    rw [List.append_nil, show decode [] = [] from rfl, List.append_nil] at h
    rw [text, text, h, trimNuls_append_replicate]

/-- **NULs between other bytes are kept**, all of them. -/
theorem text_inner_nuls {front back : Bytes} (hfront : front.getLast? ≠ some 0)
    (hback : text back ≠ "") (n : Nat) :
    text (front ++ List.replicate (n + 1) 0 ++ back) =
      text front ++ String.ofList (List.replicate (n + 1) (Char.ofNat 0)) ++ text back := by
  have hkept : trimNuls (decode front) = decode front :=
    trimNuls_eq_self (getLast?_decodeFrom (by simp) hfront)
  have hrest : trimNuls (decode back) ≠ [] := by
    intro hnil
    exact hback (by rw [text, hnil, String.ofList_nil])
  rw [text, decode_append_nuls, trimNuls_append hrest, text, text, hkept, String.ofList_append,
    String.ofList_append]

/-! ### Readers -/

/-- **The laws of a reader of padded texts.** Every byte of a text goes through `hide` before it is
stored, `fits` says which byte strings can be stored, and `read` reads them. -/
structure PaddedReading (hide : UInt8 → UInt8) (fits : Bytes → Prop)
    (read : Bytes → Option String) : Prop where
  /-- Whatever can be stored is read. -/
  total : ∀ raw, fits raw → ∃ s, read raw = some s
  /-- A text is read back, however many NULs are behind it, unless it ends in one itself. -/
  exact : ∀ (s : String) (n : Nat), s.toList.getLast? ≠ some (Char.ofNat 0) →
    fits ((Bytes.ofText s ++ List.replicate n 0).map hide) →
    read ((Bytes.ofText s ++ List.replicate n 0).map hide) = some s
  /-- Nothing that is read ends in a NUL. -/
  trimmed : ∀ raw s, fits raw → read raw = some s → s.toList.getLast? ≠ some (Char.ofNat 0)
  /-- Padding makes no difference. -/
  blind : ∀ raw n, fits (raw ++ List.replicate n (hide 0)) →
    read (raw ++ List.replicate n (hide 0)) = read raw
  /-- NULs with something behind them are kept. -/
  inner : ∀ front back n s t, front.getLast? ≠ some (hide 0) →
    fits (front ++ List.replicate (n + 1) (hide 0) ++ back) →
    read front = some s → read back = some t → t ≠ "" →
    read (front ++ List.replicate (n + 1) (hide 0) ++ back) =
      some (s ++ String.ofList (List.replicate (n + 1) (Char.ofNat 0)) ++ t)

/-- **What undoes the hiding and then reads as `Utf8.text` does obeys the laws.** -/
theorem PaddedReading.of_text {hide : UInt8 → UInt8} {fits : Bytes → Prop}
    {read : Bytes → Option String} (hhide : ∀ b, hide (hide b) = b)
    (hfits : ∀ {part whole : Bytes}, part.length ≤ whole.length → fits whole → fits part)
    (hread : ∀ raw, fits raw → read raw = some (text (raw.map hide))) :
    PaddedReading hide fits read := by
  have htwice : ∀ raw : Bytes, (raw.map hide).map hide = raw := by
    intro raw
    simp [Function.comp_def, hhide]
  have hpad : ∀ n, (List.replicate n (hide 0)).map hide = List.replicate n 0 := by
    intro n
    rw [List.map_replicate, hhide]
  refine ⟨fun raw h => ⟨_, hread raw h⟩, fun s n hs h => ?_, fun raw s h hs => ?_,
    fun raw n h => ?_, fun front back n s t hlast h hs ht hne => ?_⟩
  · rw [hread _ h, htwice, text_ofText_nuls hs]
  · rw [hread raw h, Option.some.injEq] at hs
    exact hs ▸ getLast?_text _
  · rw [hread _ h, hread raw (hfits (by simp) h), List.map_append, hpad, text_append_nuls]
  · rw [hread front (hfits (by simp) h), Option.some.injEq] at hs
    rw [hread back (hfits (by simp; omega) h), Option.some.injEq] at ht
    subst hs ht
    have hfront : (front.map hide).getLast? ≠ some 0 := by
      rw [List.getLast?_map]
      intro heq
      obtain ⟨b, hb, hzero⟩ := Option.map_eq_some_iff.1 heq
      exact hlast (by rw [hb, ← hzero, hhide])
    rw [hread _ h, List.map_append, List.map_append, hpad, text_inner_nuls hfront hne]

end AssetPack.Utf8
