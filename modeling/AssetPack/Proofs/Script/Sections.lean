import AssetPack.Proofs.Script.Storage
import Mathlib.Data.Nat.Bitwise

/-!
# Header, identifiers, line map and tokens are read as they are stored

One theorem for each part of a record but the constants: its decoder reads its format. The three
decoders that look before they read (`Header.decode` at its signature, `Identifier.decode` at its
length, `Token.decode` at its marker) go through `Decoder.Reads.lookahead_bind`.

## Main results

* `Header.reads_decode`, `Identifier.reads_decode`, `Token.reads_decode`
* `LineMap.lastWins_iff`: the map that pairs describe is the one that inserting them in order makes.
* `LineMap.reads_decode`
-/

namespace AssetPack.Script

open LittleEndian (word)
open Decoder (Reads)

variable {base pos : Nat}

/-- A primitive read as a part of a record: what was missing is missing from that part. -/
theorem RecordError.reads_part {α : Type} {d : Decoder Bounds α} {format : Format α}
    (h : Reads (fun _ => True) d base pos format) (part : Part) :
    Reads RecordError.IsTruncation (Decoder.mapError (.truncated part) d) base pos format :=
  h.mapError fun e _ => ⟨part, e, rfl⟩

open RecordError (reads_part)

/-! ### Header -/

namespace Header

@[simp] theorem wordAt_zero (w : UInt32) (rest : Bytes) : wordAt (word w ++ rest) 0 = w := by
  rw [wordAt, Nat.mul_zero, List.drop_zero, LittleEndian.ofNat_decode_take_word]

@[simp] theorem wordAt_word (w : UInt32) : wordAt (word w) 0 = w := by
  rw [← List.append_nil (word w), wordAt_zero]

@[simp] theorem wordAt_succ (w : UInt32) (rest : Bytes) (i : Nat) :
    wordAt (word w ++ rest) (i + 1) = wordAt rest i := by
  have hsplit : 4 * (i + 1) = (word w).length + 4 * i := by rw [LittleEndian.length_word]; omega
  rw [wordAt, wordAt, hsplit, List.drop_length_add_append]

/-- A run of `4 * n` bytes is the `n` words that `wordAt` finds in it. -/
theorem eq_flatMap_wordAt {n : Nat} {bytes : Bytes} (h : bytes.length = 4 * n) :
    bytes = ((List.range n).map (wordAt bytes)).flatMap word := by
  induction n generalizing bytes with
  | zero => simpa using h
  | succ n ih =>
    obtain ⟨front, back, hfront, rfl⟩ : ∃ front back, front.length = 4 ∧ bytes = front ++ back :=
      ⟨bytes.take 4, bytes.drop 4, by rw [List.length_take, h]; omega,
        (List.take_append_drop 4 bytes).symm⟩
    have hback : back.length = 4 * n := by
      rw [List.length_append] at h
      omega
    rw [← LittleEndian.word_ofNat_decode hfront, List.range_succ_eq_map, List.map_cons,
      List.flatMap_cons, wordAt_zero, List.map_map]
    simp only [Function.comp_def, wordAt_succ]
    rw [← ih hback]

theorem length_encode (h : Header) : h.encode.length = size := by simp [encode, size]

theorem ofBytes_encode {h : Header} (hsignature : h.signature = Script.signature) :
    ofBytes h.encode = .ok h := by
  simp only [ofBytes, encode, List.append_assoc, wordAt_zero, wordAt_succ, wordAt_word]
  rw [if_pos hsignature]

theorem eq_encode_of_ofBytes {bytes : Bytes} {h : Header} (hlength : bytes.length = size)
    (hok : ofBytes bytes = .ok h) : h.signature = Script.signature ∧ bytes = h.encode := by
  rw [ofBytes] at hok
  split at hok
  · next hsignature =>
    cases hok
    refine ⟨hsignature, ?_⟩
    have hwords := eq_flatMap_wordAt (n := 6) hlength
    rw [show List.range 6 = [0, 1, 2, 3, 4, 5] from rfl] at hwords
    simpa [encode] using hwords
  · cases hok

theorem reads_decode : Reads RecordError.IsTruncation decode base pos format := by
  unfold decode
  rw [Decoder.peekBytes_eq_lookahead, Decoder.mapError_lookahead]
  have hafter : ∀ pos (header : Header), Reads RecordError.IsTruncation
      (if header.version ≠ knownVersion then do
          let _ ← Decoder.note (.unexpectedVersion header.version knownVersion)
          pure header
        else pure header) base pos (Format.empty header) := by
    intro pos header
    split
    · exact .note_bind (.pure header)
    · exact .pure header
  refine (Reads.lookahead_bind _ (reads_part (.readBytes size) .header)
    (fun bytes _ _ => (Reads.ofExcept (ofBytes bytes)).bind fun header _ _ =>
      (reads_part (.skip size) .header).bind fun _ _ _ => hafter _ header) ?_).congr
    fun h bytes => ?_
  · rintro bytes probe h full ⟨rfl, hlength⟩ ⟨_, _, _, ⟨-, rfl⟩, ⟨_, _, _, hskip, ⟨-, rfl⟩, rfl⟩,
      rfl⟩
    simp [hlength, hskip]
  · constructor
    · rintro ⟨_, _, ⟨rfl, hlength⟩, hpre, _, _, _, ⟨hok, rfl⟩, ⟨_, _, _, hskip, ⟨rfl, rfl⟩, rfl⟩,
        rfl⟩
      simp only [List.nil_append, List.append_nil] at hpre
      rw [hpre.eq_of_length (hlength.trans hskip.symm)] at hok
      simpa [format] using eq_encode_of_ofBytes hskip hok
    · rintro ⟨hsignature, rfl⟩
      have hlength := length_encode h
      exact ⟨h.encode, h.encode, ⟨rfl, hlength⟩, List.prefix_rfl, h, [], h.encode,
        ⟨ofBytes_encode hsignature, rfl⟩,
        ⟨(), h.encode, [], hlength, ⟨rfl, rfl⟩, by simp⟩, rfl⟩

end Header

/-! ### Identifiers -/

namespace Identifier

theorem frame_eq_word_append {stored : Bytes} {w : UInt32} (h : stored.length = w.toNat) :
    frame stored = word w ++ stored := by
  rw [frame, h, LittleEndian.word]

theorem reads_decode : Reads RecordError.IsTruncation decode base pos format := by
  unfold decode
  rw [Decoder.peekWord_eq_lookahead, Decoder.mapError_lookahead]
  refine (Reads.lookahead_bind _ (reads_part .readWord .identifierLength)
    (fun length _ _ => (reads_part (.readBytes (4 + length.toNat)) .identifier).map
      fun bytes => unmask (bytes.drop 4)) ?_).congr fun name bytes => ?_
  · rintro w probe b full rfl ⟨a, ⟨rfl, hlength⟩, -⟩
    rw [LittleEndian.length_word, hlength]
    omega
  · constructor
    · rintro ⟨w, _, rfl, ⟨stored, rfl⟩, _, ⟨rfl, hlength⟩, rfl⟩
      rw [List.length_append, LittleEndian.length_word] at hlength
      have hstored : stored.length = w.toNat := by omega
      refine ⟨stored, ?_, ?_, ?_⟩
      · rw [hstored]
        exact w.toNat_lt
      · rw [List.drop_left' (LittleEndian.length_word w)]
      · exact (frame_eq_word_append hstored).symm
    · rintro ⟨stored, hlt, rfl, rfl⟩
      have hword : stored.length = (UInt32.ofNat stored.length).toNat := by
        rw [UInt32.toNat_ofNat', Nat.mod_eq_of_lt hlt]
      rw [frame_eq_word_append hword]
      refine ⟨_, _, rfl, List.prefix_append _ _, _, ⟨rfl, ?_⟩, ?_⟩
      · rw [List.length_append, LittleEndian.length_word, ← hword]
      · rw [List.drop_left' (LittleEndian.length_word _)]

end Identifier

/-! ### Tokens -/

namespace Token

theorem and_marker (n : Nat) : n &&& 0x80 = 0x80 * (n / 0x80 % 2) := by
  have h := Nat.and_two_pow n 7
  rw [Nat.toNat_testBit, Nat.mul_comm] at h
  exact h

theorem isWide_iff (t : Token) : t.isWide = true ↔ t.word.toNat / 0x80 % 2 = 1 := by
  have h : (t.word &&& 0x80).toNat = 0x80 * (t.word.toNat / 0x80 % 2) := by
    rw [UInt32.toNat_and]
    exact and_marker t.word.toNat
  rw [isWide, bne_iff_ne, ne_eq, ← UInt32.toNat_inj, h]
  simp only [UInt32.toNat_zero]
  omega

/-- The marker as a reader sees it, in the first byte. -/
theorem marker_iff (b : UInt8) : (b &&& 0x80 != 0) = true ↔ 0x80 ≤ b.toNat := by
  have h : (b &&& 0x80).toNat = 0x80 * (b.toNat / 0x80 % 2) := by
    rw [UInt8.toNat_and]
    exact and_marker b.toNat
  have hlt := b.toNat_lt
  rw [bne_iff_ne, ne_eq, ← UInt8.toNat_inj, h]
  simp only [UInt8.toNat_zero]
  omega

/-- The first byte of a word carries the marker of the word. -/
theorem isWide_iff_marker {w : UInt32} {b : UInt8} {rest : Bytes}
    (h : LittleEndian.word w = b :: rest) :
    Token.isWide ⟨w⟩ = true ↔ (b &&& 0x80 != 0) = true := by
  have hb : b = UInt8.ofNat w.toNat := (List.cons.inj h).1.symm
  rw [isWide_iff, marker_iff, hb, UInt8.toNat_ofNat']
  change w.toNat / 0x80 % 2 = 1 ↔ _
  omega

/-- What is read once the first byte is known. -/
def formatAfter (first : UInt8) : Format Token :=
  if first &&& 0x80 != 0 then fun t bytes => ∃ w, bytes = LittleEndian.word w ∧ t = ⟨w⟩
  else fun t bytes => ∃ _ : Unit, bytes.length = 1 ∧ t = ⟨first.toUInt32⟩

theorem format_of_formatAfter {b : UInt8} {rest : Bytes} {t : Token}
    (h : formatAfter b t (b :: rest)) : format t (b :: rest) := by
  rw [formatAfter] at h
  split at h
  · next hmarker =>
    obtain ⟨w, hw, rfl⟩ := h
    have hwide := (isWide_iff_marker hw.symm).mpr hmarker
    exact ⟨.inl hwide, by rw [encode, if_pos hwide, hw]⟩
  · next hmarker =>
    obtain ⟨-, hlength, rfl⟩ := h
    obtain rfl : rest = [] := List.eq_nil_of_length_eq_zero (by simpa using hlength)
    rw [marker_iff, Nat.not_le] at hmarker
    have hnarrow : ¬ Token.isWide ⟨b.toUInt32⟩ = true := by
      rw [isWide_iff, UInt8.toNat_toUInt32]
      omega
    refine ⟨.inr ?_, ?_⟩
    · rw [UInt32.lt_iff_toNat_lt, UInt8.toNat_toUInt32]
      exact hmarker
    · rw [encode, if_neg hnarrow, UInt8.toUInt8_toUInt32]

theorem formatAfter_of_format {t : Token} {bytes : Bytes} (h : format t bytes) :
    ∃ b rest, bytes = b :: rest ∧ formatAfter b t bytes := by
  obtain ⟨hstorable, rfl⟩ := h
  by_cases hwide : t.isWide = true
  · obtain ⟨b, rest, hw⟩ : ∃ b rest, LittleEndian.word t.word = b :: rest := ⟨_, _, rfl⟩
    rw [encode, if_pos hwide]
    refine ⟨b, rest, hw, ?_⟩
    rw [formatAfter, if_pos ((isWide_iff_marker (w := t.word) hw).mp hwide)]
    exact ⟨t.word, rfl, rfl⟩
  · have hlow : t.word.toNat < 0x80 := by
      rcases hstorable with h | h
      · exact absurd h hwide
      · rwa [UInt32.lt_iff_toNat_lt] at h
    have hmarker : ¬ (t.word.toUInt8 &&& 0x80 != 0) = true := by
      rw [marker_iff, UInt32.toNat_toUInt8]
      omega
    have hword : t.word = t.word.toUInt8.toUInt32 := by
      rw [← UInt32.toNat_inj, UInt8.toNat_toUInt32, UInt32.toNat_toUInt8]
      omega
    rw [encode, if_neg hwide]
    refine ⟨t.word.toUInt8, [], rfl, ?_⟩
    rw [formatAfter, if_neg hmarker, ← hword]
    exact ⟨(), rfl, rfl⟩

theorem reads_decode : Reads RecordError.IsTruncation decode base pos format := by
  unfold decode
  rw [Decoder.peekByte_eq_lookahead, Decoder.mapError_lookahead]
  refine (Reads.lookahead_bind formatAfter (reads_part .readByte .token) (fun first _ _ => ?_)
    ?_).congr fun t bytes => ?_
  · rw [formatAfter]
    split
    · exact (reads_part .readWord .wideToken).map Token.mk
    · exact (reads_part (.skip 1) .token).map fun _ => Token.mk first.toUInt32
  · rintro b _ t bytes rfl h
    rw [formatAfter] at h
    split at h
    · obtain ⟨w, rfl, -⟩ := h
      simp
    · obtain ⟨-, hlength, -⟩ := h
      simp [hlength]
  · constructor
    · rintro ⟨b, _, rfl, ⟨rest, rfl⟩, h⟩
      exact format_of_formatAfter h
    · intro h
      obtain ⟨b, rest, rfl, hafter⟩ := formatAfter_of_format h
      exact ⟨b, [b], rfl, ⟨rest, rfl⟩, hafter⟩

end Token

/-! ### Line map -/

namespace LineMap

theorem find?_cons (s : Int32) (p : UInt32) (rest : LineMap) (t : Int32) :
    find? ((s, p) :: rest) t = if t = s then some p else rest.find? t := by
  by_cases h : t = s
  · simp [find?, h]
  · have hne : (t == s) = false := by simpa using h
    simp [find?, List.lookup_cons, h, hne]

theorem find?_insert (token : Int32) (packed : UInt32) (map : LineMap) (t : Int32) :
    (insert token packed map).find? t = if t = token then some packed else map.find? t := by
  induction map with
  | nil => rw [insert, find?_cons]
  | cons entry rest ih =>
    obtain ⟨s, p⟩ := entry
    rw [insert, find?_cons]
    split
    · rw [find?_cons, find?_cons]
    · split
      · next heq =>
        subst heq
        rw [find?_cons]
        split <;> rfl
      · next hne =>
        rw [find?_cons, ih]
        -- the two tests cannot both hold, so their order does not matter
        by_cases hs : t = s
        · rw [if_pos hs, if_neg fun h => hne (h.symm.trans hs), if_pos hs]
        · rw [if_neg hs, if_neg hs]

/-- Every key of an insertion is the new one or an old one. -/
theorem mem_keys_insert {token : Int32} {packed : UInt32} {map : LineMap} {entry : Int32 × UInt32}
    (h : entry ∈ insert token packed map) : entry = (token, packed) ∨ entry ∈ map := by
  induction map with
  | nil => simpa [insert] using h
  | cons head rest ih =>
    obtain ⟨s, p⟩ := head
    rw [insert] at h
    split at h
    · simpa using h
    · split at h
      · rcases List.mem_cons.mp h with h | h
        · exact .inl h
        · exact .inr (List.mem_cons_of_mem _ h)
      · rcases List.mem_cons.mp h with h | h
        · exact .inr (h ▸ List.mem_cons_self)
        · rcases ih h with h | h
          · exact .inl h
          · exact .inr (List.mem_cons_of_mem _ h)

theorem ascending_insert {token : Int32} {packed : UInt32} {map : LineMap}
    (h : map.Pairwise fun a b => a.1 < b.1) :
    (insert token packed map).Pairwise fun a b => a.1 < b.1 := by
  induction map with
  | nil => simp [insert]
  | cons head rest ih =>
    obtain ⟨s, p⟩ := head
    obtain ⟨hhead, hrest⟩ := List.pairwise_cons.mp h
    rw [insert]
    split
    · next hlt =>
      refine List.pairwise_cons.mpr ⟨fun entry hentry => ?_, h⟩
      rcases List.mem_cons.mp hentry with rfl | hentry
      · exact hlt
      · exact Int32.lt_trans hlt (hhead entry hentry)
    · next hnlt =>
      split
      · next heq =>
        subst heq
        exact List.pairwise_cons.mpr ⟨hhead, hrest⟩
      · next hne =>
        refine List.pairwise_cons.mpr ⟨fun entry hentry => ?_, ih hrest⟩
        rcases mem_keys_insert hentry with rfl | hentry
        · exact Int32.lt_of_le_of_ne (Int32.not_lt.mp hnlt) (Ne.symm hne)
        · exact hhead entry hentry

/-- Below its least token, an ascending map has nothing. -/
theorem find?_eq_none_of_lt {map : LineMap} {t : Int32} (h : ∀ entry ∈ map, t < entry.1) :
    map.find? t = none := by
  rw [find?, List.lookup_eq_none_iff]
  intro entry hentry
  simpa using Int32.ne_of_lt (h entry hentry)

/-- The first token of an ascending map is not below the first token of a map with the same
look-ups. -/
theorem not_lt_of_find?_eq {s s' : Int32} {p p' : UInt32} {rest rest' : LineMap}
    (h' : List.Pairwise (fun a b => a.1 < b.1) ((s', p') :: rest'))
    (hfind : ∀ t, find? ((s, p) :: rest) t = find? ((s', p') :: rest') t) : ¬ s < s' := by
  intro hlt
  have hnone : find? ((s', p') :: rest') s = none := by
    refine find?_eq_none_of_lt fun entry hentry => ?_
    rcases List.mem_cons.mp hentry with rfl | hentry
    · exact hlt
    · exact Int32.lt_trans hlt ((List.pairwise_cons.mp h').1 entry hentry)
  rw [← hfind, find?_cons, if_pos rfl] at hnone
  cases hnone

/-- **Extensionality.** An ascending map is known by its look-ups. -/
theorem eq_of_find?_eq {map map' : LineMap} (h : map.Pairwise fun a b => a.1 < b.1)
    (h' : map'.Pairwise fun a b => a.1 < b.1) (hfind : ∀ t, map.find? t = map'.find? t) :
    map = map' := by
  induction map generalizing map' with
  | nil =>
    cases map' with
    | nil => rfl
    | cons head rest =>
      have hhead := hfind head.1
      rw [find?_cons, if_pos rfl] at hhead
      cases hhead
  | cons head rest ih =>
    obtain ⟨s, p⟩ := head
    cases map' with
    | nil =>
      have hhead := hfind s
      rw [find?_cons, if_pos rfl] at hhead
      cases hhead
    | cons head' rest' =>
      obtain ⟨s', p'⟩ := head'
      obtain rfl : s = s' := Int32.le_antisymm
        (Int32.not_lt.mp (not_lt_of_find?_eq h fun t => (hfind t).symm))
        (Int32.not_lt.mp (not_lt_of_find?_eq h' hfind))
      obtain rfl : p = p' := by simpa [find?_cons] using hfind s
      obtain ⟨hhead, hrest⟩ := List.pairwise_cons.mp h
      obtain ⟨hhead', hrest'⟩ := List.pairwise_cons.mp h'
      refine congrArg _ (ih hrest hrest' fun t => ?_)
      by_cases ht : t = s
      · subst ht
        rw [find?_eq_none_of_lt hhead, find?_eq_none_of_lt hhead']
      · simpa [find?_cons, ht] using hfind t

/-- The map that pairs make when they are inserted in order. -/
def insertAll (map : LineMap) (pairs : List (Int32 × UInt32)) : LineMap :=
  pairs.foldl (fun map pair => map.insert pair.1 pair.2) map

theorem ascending_insertAll {map : LineMap} (h : map.Pairwise fun a b => a.1 < b.1)
    (pairs : List (Int32 × UInt32)) : (insertAll map pairs).Pairwise fun a b => a.1 < b.1 := by
  induction pairs generalizing map with
  | nil => exact h
  | cons pair rest ih => exact ih (ascending_insert h)

theorem find?_insertAll (map : LineMap) (pairs : List (Int32 × UInt32)) (t : Int32) :
    (insertAll map pairs).find? t = (pairs.reverse.lookup t).or (map.find? t) := by
  induction pairs generalizing map with
  | nil => rfl
  | cons pair rest ih =>
    obtain ⟨s, p⟩ := pair
    rw [insertAll, List.foldl_cons, ← insertAll, ih, find?_insert, List.reverse_cons,
      List.lookup_append, Option.or_assoc]
    by_cases h : t = s
    · simp [h]
    · have hne : (t == s) = false := by simpa using h
      simp [List.lookup_cons, h, hne]

theorem lastWins_iff {pairs : List (Int32 × UInt32)} {map : LineMap} :
    LastWins pairs map ↔ map = insertAll [] pairs := by
  have hascending : (insertAll [] pairs).Pairwise fun a b => a.1 < b.1 :=
    ascending_insertAll .nil pairs
  have hfind : ∀ t, (insertAll [] pairs).find? t = pairs.reverse.lookup t := by
    intro t
    rw [find?_insertAll]
    simp [find?]
  constructor
  · intro h
    exact eq_of_find?_eq h.ascending hascending fun t => (h.find?_eq t).trans (hfind t).symm
  · rintro rfl
    exact ⟨hascending, hfind⟩

/-- A map has no more tokens than there were pairs. -/
theorem length_insertAll_le (map : LineMap) (pairs : List (Int32 × UInt32)) :
    (insertAll map pairs).length ≤ map.length + pairs.length := by
  have hinsert : ∀ (token : Int32) (packed : UInt32) (map : LineMap),
      (insert token packed map).length ≤ map.length + 1 := by
    intro token packed map
    induction map with
    | nil => simp [insert]
    | cons head rest ih =>
      rw [insert]
      split
      · simp
      · split
        · simp
        · simpa using ih
  induction pairs generalizing map with
  | nil => simp [insertAll]
  | cons pair rest ih =>
    have hrest := ih (map.insert pair.1 pair.2)
    have hpair := hinsert pair.1 pair.2 map
    rw [insertAll, List.foldl_cons, ← insertAll, List.length_cons]
    omega

@[simp] theorem length_encodePair (pair : Int32 × UInt32) : (encodePair pair).length = 8 := by
  simp [encodePair]

theorem reads_decodePair :
    Reads RecordError.IsTruncation decodePair base pos
      fun pair bytes => bytes = encodePair pair := by
  unfold decodePair
  refine ((reads_part (.readBytes 8) .lineEntry).map _).congr fun pair bytes => ?_
  constructor
  · rintro ⟨_, ⟨rfl, hlength⟩, rfl⟩
    have hfront : (bytes.take 4).length = 4 := by rw [List.length_take, hlength]; rfl
    have hback : (bytes.drop 4).length = 4 := by rw [List.length_drop, hlength]
    rw [encodePair, UInt32.toUInt32_toInt32, LittleEndian.word_ofNat_decode hfront,
      LittleEndian.word_ofNat_decode hback, List.take_append_drop]
  · rintro rfl
    refine ⟨encodePair pair, ⟨rfl, length_encodePair pair⟩, ?_⟩
    rw [encodePair, LittleEndian.ofNat_decode_take_word,
      List.drop_left' (LittleEndian.length_word _), LittleEndian.ofNat_decode_word,
      Int32.toInt32_toUInt32]

theorem reads_decodeInto (count : Nat) (map : LineMap) :
    Reads RecordError.IsTruncation (decodeInto count map) base pos fun out bytes =>
      ∃ pairs, pairs.length = count ∧ out = insertAll map pairs ∧
        bytes = pairs.flatMap encodePair := by
  induction count generalizing pos map with
  | zero =>
    refine (Reads.pure map).congr fun out bytes => ?_
    constructor
    · rintro ⟨rfl, rfl⟩
      exact ⟨[], rfl, rfl, rfl⟩
    · rintro ⟨pairs, hlength, rfl, rfl⟩
      obtain rfl := List.eq_nil_of_length_eq_zero hlength
      exact ⟨rfl, rfl⟩
  | succ count ih =>
    have hseq : Reads RecordError.IsTruncation (decodeInto (count + 1) map) base pos
        (Format.seq (fun pair bytes => bytes = encodePair pair) fun pair _ out bytes =>
          ∃ pairs, pairs.length = count ∧ out = insertAll (map.insert pair.1 pair.2) pairs ∧
            bytes = pairs.flatMap encodePair) := by
      rw [decodeInto]
      refine reads_decodePair.bind fun pair front _ => ?_
      obtain ⟨token, packed⟩ := pair
      -- the notice of a replaced entry reads nothing
      dsimp only
      split
      · exact .note_bind (ih _)
      · exact ih _
    refine hseq.congr fun out bytes => ?_
    constructor
    · rintro ⟨pair, _, _, rfl, ⟨pairs, hlength, rfl, rfl⟩, rfl⟩
      exact ⟨pair :: pairs, by simp [hlength], rfl, rfl⟩
    · rintro ⟨pairs, hlength, rfl, rfl⟩
      cases pairs with
      | nil => simp at hlength
      | cons pair pairs =>
        exact ⟨pair, _, _, rfl, ⟨pairs, by simpa using hlength, rfl, rfl⟩, rfl⟩

theorem reads_decode (count : UInt32) :
    Reads RecordError.IsTruncation (decode count) base pos (format count.toNat) := by
  refine (reads_decodeInto count.toNat []).congr fun map bytes => ?_
  simp only [format, lastWins_iff]

end LineMap

end AssetPack.Script
