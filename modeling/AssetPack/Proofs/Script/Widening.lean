import AssetPack.Proofs.Script.Listing
import AssetPack.Proofs.Script.Record

/-!
# A token means the same in one byte and in four

The marker of a token word says how the token was stored and nothing else. It stays in the word when
the word is read, so every use of a word has to look past it: the opcode is below the marker, the
operand above. A token that takes one byte has no operand, and the same opcode with the marker set
and an operand of zero takes four bytes and means the same.

So the tokens of a record may be stored in the longer form, all of them or some. `Token.widenBytes`
does this to the bytes of a token stream without decoding them, and `Token.widenSome` does it to the
tokens. That the two agree is what keeps a reader in step: a reader that took one width for the
other would find every later token at a wrong place.

## Main definitions

* `Token.AgreesOffMarker`: two words with the same bits outside the marker.
* `Token.widenBytes`: a stream with some of its one-byte tokens stored in four bytes.

## Main results

* `Listing.text_of_agreesOffMarker`: a listing does not depend on the markers.
* `Token.widenBytes_flatMap`: widening bytes is widening tokens.
* `Record.widening_keeps_meaning`: records with tokens of either width.
-/

namespace AssetPack.Script

namespace Token

/-! ### Words up to the marker -/

/-- The words have the same bits but for bit seven, the marker. -/
def AgreesOffMarker (t t' : Token) : Prop :=
  ∀ i, i ≠ 7 → t.word.toNat.testBit i = t'.word.toNat.testBit i

theorem AgreesOffMarker.refl (t : Token) : t.AgreesOffMarker t := fun _ _ => rfl

theorem AgreesOffMarker.kind_eq {t t' : Token} (h : t.AgreesOffMarker t') :
    t.word.toNat % 128 = t'.word.toNat % 128 := by
  refine Nat.eq_of_testBit_eq fun i => ?_
  rw [show 128 = 2 ^ 7 from rfl, Nat.testBit_mod_two_pow, Nat.testBit_mod_two_pow]
  by_cases hi : i < 7
  · rw [h i (by omega)]
  · simp [hi]

theorem AgreesOffMarker.operand_eq {t t' : Token} (h : t.AgreesOffMarker t') :
    t.word.toNat / 256 = t'.word.toNat / 256 := by
  refine Nat.eq_of_testBit_eq fun i => ?_
  rw [show 256 = 2 ^ 8 from rfl, Nat.testBit_div_two_pow, Nat.testBit_div_two_pow]
  exact h _ (by omega)

end Token

/-! ### Listings -/

namespace Listing

theorem emit_of_agreesOffMarker (tables : Tables) (position : Nat) {t t' : Token}
    (h : t.AgreesOffMarker t') : emit tables position t = emit tables position t' := by
  rw [emit_eq, emit_eq, rendering, rendering, h.kind_eq, h.operand_eq]

/-- **A listing does not depend on the markers.** -/
theorem text_of_agreesOffMarker (tables : Tables) {tokens tokens' : List Token}
    (h : List.Forall₂ Token.AgreesOffMarker tokens tokens') :
    text tables tokens = text tables tokens' := by
  have hpieces : ∀ position, pieces tables position tokens = pieces tables position tokens' := by
    induction h with
    | nil => intro position; rfl
    | cons hhead _ ih =>
      intro position
      rw [pieces, pieces, emit_of_agreesOffMarker tables position hhead, ih (position + 1)]
  rw [text, text, hpieces 0]

end Listing

/-! ### Widening -/

namespace Token

/-- The token with the marker set. -/
def widened (t : Token) : Token := ⟨t.word ||| 0x80⟩

theorem agreesOffMarker_widened (t : Token) : t.AgreesOffMarker t.widened := by
  intro i hi
  have hmarker : Nat.testBit 0x80 i = false := by
    rw [show 0x80 = 2 ^ 7 from rfl, Nat.testBit_two_pow]
    exact decide_eq_false fun h => hi h.symm
  rw [widened, UInt32.toNat_or, Nat.testBit_or, show (0x80 : UInt32).toNat = 0x80 from rfl,
    hmarker, Bool.or_false]

theorem isWide_widened (t : Token) : t.widened.isWide = true := by
  have hbit : (t.word.toNat ||| 0x80).testBit 7 = true := by
    rw [Nat.testBit_or, show Nat.testBit 0x80 7 = true from rfl, Bool.or_true]
  rw [Nat.testBit_eq_decide_div_mod_eq, decide_eq_true_eq] at hbit
  rw [isWide_iff, widened, UInt32.toNat_or]
  exact hbit

/-- A token that is wide has the marker already. -/
theorem widened_of_isWide {t : Token} (h : t.isWide = true) : t.widened = t := by
  have hword : (t.word ||| 0x80).toNat = t.word.toNat := by
    refine Nat.eq_of_testBit_eq fun i => ?_
    by_cases hi : i = 7
    · have hmarker := (isWide_iff t.widened).mp (isWide_widened t)
      rw [hi, Nat.testBit_eq_decide_div_mod_eq, Nat.testBit_eq_decide_div_mod_eq,
        show t.word.toNat / 2 ^ 7 % 2 = 1 from (isWide_iff t).mp h,
        show (t.word ||| 0x80).toNat / 2 ^ 7 % 2 = 1 from hmarker]
    · exact (agreesOffMarker_widened t i hi).symm
  rw [widened, UInt32.toNat_inj.mp hword]

theorem toNat_lt_of_storable {t : Token} (h : t.Storable) (hnarrow : t.isWide = false) :
    t.word.toNat < 0x80 := by
  rcases h with hwide | hlow
  · rw [hnarrow] at hwide
    cases hwide
  · rwa [UInt32.lt_iff_toNat_lt] at hlow

/-- The four bytes of a token that took one. -/
theorem encode_widened {t : Token} (h : t.word.toNat < 0x80) :
    t.widened.encode = [t.word.toUInt8 ||| 0x80, 0, 0, 0] := by
  have hlt : (t.word ||| 0x80).toNat < 256 := by
    rw [UInt32.toNat_or]
    exact Nat.or_lt_two_pow (n := 8) (by omega) (by decide)
  have hhigh : (t.word ||| 0x80).toNat / 256 = 0 := Nat.div_eq_of_lt hlt
  have hlow : UInt8.ofNat (t.word ||| 0x80).toNat = t.word.toUInt8 ||| 0x80 :=
    UInt32.toUInt8_or t.word 0x80
  rw [encode, if_pos (isWide_widened t), LittleEndian.word, widened]
  simp only [LittleEndian.encode, hhigh, Nat.zero_div, hlow]
  rfl

/-- A stream in which the one-byte tokens that `chosen` picks are stored in four bytes. Choices go
to the tokens in their order. A choice for a token that takes four bytes already has no effect. -/
def widenBytes : List Bool → Bytes → Bytes
  | [], bytes => bytes
  | _ :: _, [] => []
  | choice :: chosen, b :: bytes =>
    if b &&& 0x80 != 0 then b :: bytes.take 3 ++ widenBytes chosen (bytes.drop 3)
    else if choice then [b ||| 0x80, 0, 0, 0] ++ widenBytes chosen bytes
    else b :: widenBytes chosen bytes

/-- The tokens of a stream, those that `chosen` picks with the marker set. -/
def widenSome : List Bool → List Token → List Token
  | [], tokens => tokens
  | _ :: _, [] => []
  | choice :: chosen, t :: tokens =>
    (if choice then t.widened else t) :: widenSome chosen tokens

/-- How many tokens grow: those that are picked and take one byte. -/
def grown (chosen : List Bool) (tokens : List Token) : Nat :=
  (chosen.zip tokens).countP fun p => p.1 && !p.2.isWide

theorem agreesOffMarker_widenSome (chosen : List Bool) (tokens : List Token) :
    List.Forall₂ AgreesOffMarker tokens (widenSome chosen tokens) := by
  induction chosen generalizing tokens with
  | nil => exact List.forall₂_same.mpr fun t _ => .refl t
  | cons choice chosen ih =>
    cases tokens with
    | nil => exact .nil
    | cons t tokens =>
      refine .cons ?_ (ih tokens)
      split
      · exact agreesOffMarker_widened t
      · exact .refl t

theorem storable_widenSome {tokens : List Token} (h : ∀ t ∈ tokens, t.Storable)
    (chosen : List Bool) : ∀ t ∈ widenSome chosen tokens, t.Storable := by
  induction chosen generalizing tokens with
  | nil => exact h
  | cons choice chosen ih =>
    cases tokens with
    | nil => simp [widenSome]
    | cons t tokens =>
      obtain ⟨ht, htokens⟩ := List.forall_mem_cons.mp h
      refine List.forall_mem_cons.mpr ⟨?_, ih htokens⟩
      split
      · exact .inl (isWide_widened t)
      · exact ht

/-- A wide token is four bytes, of which the first shows the marker. -/
theorem encode_of_isWide {t : Token} (h : t.isWide = true) :
    ∃ b x y z, t.encode = [b, x, y, z] ∧ (b &&& 0x80 != 0) = true := by
  refine ⟨_, _, _, _, by rw [encode, if_pos h]; rfl, ?_⟩
  exact (isWide_iff_marker (w := t.word) rfl).mp h

/-- A narrow token is one byte, which does not show the marker. -/
theorem encode_of_narrow {t : Token} (h : t.word.toNat < 0x80) :
    t.encode = [t.word.toUInt8] ∧ (t.word.toUInt8 &&& 0x80 != 0) = false := by
  have hnarrow : ¬ t.isWide = true := by
    rw [isWide_iff]
    omega
  refine ⟨by rw [encode, if_neg hnarrow], ?_⟩
  rw [← Bool.not_eq_true, marker_iff, UInt32.toNat_toUInt8]
  omega

/-- **Widening the bytes of a stream is widening its tokens.** -/
theorem widenBytes_flatMap {tokens : List Token} (h : ∀ t ∈ tokens, t.Storable)
    (chosen : List Bool) :
    widenBytes chosen (tokens.flatMap encode) = (widenSome chosen tokens).flatMap encode := by
  induction chosen generalizing tokens with
  | nil => rfl
  | cons choice chosen ih =>
    cases tokens with
    | nil => rfl
    | cons t tokens =>
      obtain ⟨ht, htokens⟩ := List.forall_mem_cons.mp h
      rw [widenSome, List.flatMap_cons, List.flatMap_cons, ← ih htokens]
      -- The bytes are cut where the first of them shows the marker: at the width of the token.
      cases hwide : t.isWide with
      | true =>
        obtain ⟨b, x, y, z, hencode, hmarker⟩ := encode_of_isWide hwide
        rw [widened_of_isWide hwide, ite_self, hencode]
        simp [widenBytes, hmarker]
      | false =>
        have hlow := toNat_lt_of_storable ht hwide
        obtain ⟨hencode, hmarker⟩ := encode_of_narrow hlow
        rw [hencode]
        cases choice with
        | true =>
          rw [if_pos rfl, encode_widened hlow]
          simp [widenBytes, hmarker]
        | false =>
          rw [if_neg Bool.false_ne_true, hencode]
          simp [widenBytes, hmarker]

theorem length_flatMap_widenSome {tokens : List Token} (h : ∀ t ∈ tokens, t.Storable)
    (chosen : List Bool) :
    ((widenSome chosen tokens).flatMap encode).length =
      (tokens.flatMap encode).length + 3 * grown chosen tokens := by
  induction chosen generalizing tokens with
  | nil => rfl
  | cons choice chosen ih =>
    cases tokens with
    | nil => rfl
    | cons t tokens =>
      obtain ⟨ht, htokens⟩ := List.forall_mem_cons.mp h
      have hrest := ih htokens
      have hone : (if choice then t.widened else t).encode.length =
          t.encode.length + 3 * (if (choice && !t.isWide) = true then 1 else 0) := by
        cases choice with
        | false => rfl
        | true =>
          cases hwide : t.isWide with
          | true => simp [widened_of_isWide hwide]
          | false =>
            have hlow := toNat_lt_of_storable ht hwide
            simp [encode_widened hlow, (encode_of_narrow hlow).1]
      rw [grown] at hrest ⊢
      rw [widenSome, List.flatMap_cons, List.flatMap_cons, List.length_append, List.length_append,
        List.zip_cons_cons, List.countP_cons, hone, hrest]
      dsimp only
      omega

end Token

/-! ### Records -/

namespace Record

/-- The record with some of its tokens stored in four bytes. -/
def widen (r : Record) (chosen : List Bool) : Record :=
  { r with
    tokens := Token.widenSome chosen r.tokens
    encodedLength := r.encodedLength + 3 * Token.grown chosen r.tokens }

theorem listing_widen (r : Record) (chosen : List Bool) : (r.widen chosen).listing = r.listing :=
  (Listing.text_of_agreesOffMarker r.tables (Token.agreesOffMarker_widenSome chosen r.tokens)).symm

theorem length_tokens_widen (r : Record) (chosen : List Bool) :
    (r.widen chosen).tokens.length = r.tokens.length :=
  (Token.agreesOffMarker_widenSome chosen r.tokens).length_eq.symm

/-- The parts of a record are those of the widened record, up to the tokens. -/
theorem Parts.widen {position : Nat} {r : Record} {stored : List Bytes} {pool : Bytes}
    {pairs : List (Int32 × UInt32)} (h : Parts position r stored pool pairs)
    (chosen : List Bool) : Parts position (r.widen chosen) stored pool pairs :=
  { h with
    tokenCount := (length_tokens_widen r chosen).trans h.tokenCount
    tokens := Token.storable_widenSome h.tokens chosen }

/-- **Narrow and wide tokens mean the same.** In an accepted record any of the tokens that take one
byte may be stored in four: the marker set, the operand zero. The record is accepted with the same
header, tables and number of tokens, it is three bytes longer for each such token, and its listing
is the same text or the same error. And quite generally two streams have the same listing if their
words differ in the marker at most. -/
theorem widening_keeps_meaning :
    (∀ (d : Bytes) (r : Record), (ofBytes d).outcome = .ok r →
      ∃ front tail, d = front ++ r.tokens.flatMap Token.encode ++ tail ∧
        (front ++ r.tokens.flatMap Token.encode).length = r.encodedLength ∧
        ∀ chosen : List Bool, ∃ r',
          (ofBytes (front ++ Token.widenBytes chosen (r.tokens.flatMap Token.encode) ++
            tail)).outcome = .ok r' ∧
          r'.header = r.header ∧ r'.identifiers = r.identifiers ∧ r'.constants = r.constants ∧
          r'.lineMap = r.lineMap ∧ r'.tokens.length = r.tokens.length ∧
          r'.encodedLength = r.encodedLength +
            3 * (chosen.zip r.tokens).countP (fun p => p.1 && !p.2.isWide) ∧
          r'.listing = r.listing) ∧
    ∀ (tables : Tables) (tokens tokens' : List Token),
      List.Forall₂ (fun t t' => ∀ i, i ≠ 7 → t.word.toNat.testBit i = t'.word.toNat.testBit i)
        tokens tokens' → Listing.text tables tokens = Listing.text tables tokens' := by
  refine ⟨fun d r h => ?_, fun tables _ _ h => Listing.text_of_agreesOffMarker tables h⟩
  obtain ⟨hle, -, stored, pool, pairs, hparts, hbytes, hlength⟩ :=
    format_of_decode (c := Cursor.start d) h
  have hstream := Token.widenBytes_flatMap hparts.tokens
  refine ⟨r.header.encode ++ stored.flatMap Identifier.frame ++ pool ++
    pairs.flatMap LineMap.encodePair, d.drop r.encodedLength, ?_, ?_, fun chosen => ?_⟩
  · have hsplit := List.take_append_drop r.encodedLength d
    rw [show d.take r.encodedLength = _ from hbytes] at hsplit
    exact hsplit.symm
  · rw [hbytes] at hlength
    exact hlength.symm
  · have hformat : format 0 (r.widen chosen) ((r.widen chosen).join stored pool pairs) := by
      refine ⟨stored, pool, pairs, hparts.widen chosen, rfl, ?_⟩
      rw [hbytes] at hlength
      have hgrown := Token.length_flatMap_widenSome hparts.tokens chosen
      simp only [join, List.length_append] at hlength ⊢
      simp only [widen]
      omega
    rw [hstream chosen]
    exact ⟨r.widen chosen, (reads_decode.complete _ hformat).1, rfl, rfl, rfl, rfl,
      length_tokens_widen r chosen, rfl, listing_widen r chosen⟩

theorem widening_keeps_meaning_fullRecord :
    (ofBytes fullRecordBytes).outcome = .ok fullRecord ∧
      (∃ front tail, fullRecordBytes = front ++ [0x17, 0x81, 1, 0, 0] ++ tail ∧
        ∃ r', (ofBytes (front ++ [0x97, 0, 0, 0, 0x81, 1, 0, 0] ++ tail)).outcome = .ok r' ∧
          r'.header = fullRecord.header ∧ r'.tokens.length = 2 ∧ r'.encodedLength = 69 ∧
          r'.listing = .error (.badIndex .identifier 1 1)) ∧
      Listing.text ⟨["x"], []⟩ [⟨0x159⟩, ⟨0x81⟩] = Listing.text ⟨["x"], []⟩ [⟨0x1D9⟩, ⟨1⟩] := by
  obtain ⟨hrecords, hlistings⟩ := widening_keeps_meaning
  obtain ⟨front, tail, hsplit, -, hwiden⟩ :=
    hrecords fullRecordBytes fullRecord ofBytes_fullRecordBytes
  obtain ⟨r', hok, hheader, -, -, -, hcount, hlength, hlisting⟩ := hwiden [true, true]
  refine ⟨ofBytes_fullRecordBytes, ⟨front, tail, hsplit, r', hok, hheader, hcount, hlength, ?_⟩, ?_⟩
  · rw [hlisting]
    rfl
  · refine hlistings _ _ _ (.cons (Token.agreesOffMarker_widened ⟨0x159⟩) (.cons ?_ .nil))
    exact fun i hi => (Token.agreesOffMarker_widened ⟨1⟩ i hi).symm

end Record

end AssetPack.Script
