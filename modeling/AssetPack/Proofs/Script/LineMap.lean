import AssetPack.Proofs.Script.Sections

/-!
# What a line map keeps of its pairs, and what it says about the rest

Pairs may name a token more than once. The map keeps the last pair of each token; every other pair
is lost, and a notice says so when it happens, with the packed positions before and after. So map
and notices together tell all that the pairs said but for the order among different tokens: there
is one notice for each pair that is not in the map, and those of one token lead from its first
position to the one that is kept.

The order among different tokens is really lost. Two lists of pairs that agree on the pairs of each
token give the same map (`LineMap.insertAll_eq_of_reordered`).

## Main definitions

* `LineMap.replacedAll`: the notices of inserting pairs in order.
* `LineMap.positionsOf`, `LineMap.changesOf`: what pairs and notices say about one token.
* `LineMap.Faithful`: a map and notices tell what the pairs said.

## Main results

* `LineMap.run_decodeInto`: reading stored pairs.
* `LineMap.mem_insertAll_iff`: the entries are the last pairs.
* `LineMap.changesOf_replacedAll`: the notices of a token are the steps from position to position.
* `LineMap.length_replacedAll`: every pair has an entry or a notice.
* `LineMap.decode_faithful`: all of it, for a stored line map.
-/

namespace AssetPack.Script.LineMap

/-- A map lists its tokens in ascending order. -/
abbrev Ascending (map : LineMap) : Prop := map.Pairwise fun a b => a.1 < b.1

/-! ### Reading stored pairs -/

/-- The notice of inserting a pair, if its token has an entry already. -/
def replaced (map : LineMap) (pair : Int32 × UInt32) : List Notice :=
  match map.find? pair.1 with
  | some before => [.lineReplaced pair.1 before pair.2]
  | none => []

/-- The notices of inserting pairs in order. -/
def replacedAll : LineMap → List (Int32 × UInt32) → List Notice
  | _, [] => []
  | map, pair :: rest => replaced map pair ++ replacedAll (map.insert pair.1 pair.2) rest

theorem run_decodePair (base pos : Nat) (pair : Int32 × UInt32) (tail : Bytes) :
    decodePair.run ⟨base, pos, encodePair pair ++ tail⟩ =
      ⟨.ok pair, ⟨base, pos + 8, tail⟩, []⟩ := by
  have hreads : Decoder.Reads RecordError.IsTruncation decodePair base pos
      fun pair bytes => bytes = encodePair pair := reads_decodePair
  obtain ⟨hok, hcursor⟩ := hreads.complete tail (rfl : encodePair pair = encodePair pair)
  have hnotices : (decodePair.run ⟨base, pos, encodePair pair ++ tail⟩).notices = [] := by
    have hle : 8 ≤ Cursor.remaining ⟨base, pos, encodePair pair ++ tail⟩ := by
      simp [Cursor.remaining, length_encodePair]
    have hread := Decoder.run_readBytes_of_le hle
    rw [decodePair, Decoder.run_bind_of_ok _ (by rw [Decoder.run_mapError, hread]; rfl),
      Decoder.run_mapError, hread]
    rfl
  rw [length_encodePair] at hcursor
  rw [← hok, ← hcursor, ← hnotices]

/-- One turn: a pair is read and inserted, and what it replaces is noticed. -/
theorem run_decodeInto_succ {c c' : Cursor} {pair : Int32 × UInt32} (count : Nat) (map : LineMap)
    (h : decodePair.run c = ⟨.ok pair, c', []⟩) :
    (decodeInto (count + 1) map).run c =
      let later := (decodeInto count (map.insert pair.1 pair.2)).run c'
      ⟨later.outcome, later.cursor, replaced map pair ++ later.notices⟩ := by
  rw [decodeInto, Decoder.run_bind_of_ok _ (by rw [h]), h, replaced]
  dsimp only
  cases map.find? pair.1 with
  | none => rfl
  | some before => rfl

/-- **Reading stored pairs.** They are inserted in order, and what they replace is noticed. -/
theorem run_decodeInto (base pos : Nat) (map : LineMap) (pairs : List (Int32 × UInt32))
    (tail : Bytes) :
    (decodeInto pairs.length map).run ⟨base, pos, pairs.flatMap encodePair ++ tail⟩ =
      ⟨.ok (insertAll map pairs), ⟨base, pos + 8 * pairs.length, tail⟩, replacedAll map pairs⟩ := by
  induction pairs generalizing pos map with
  | nil => rfl
  | cons pair rest ih =>
    rw [List.flatMap_cons, List.append_assoc, List.length_cons,
      run_decodeInto_succ rest.length map (run_decodePair base pos pair _), ih,
      show pos + 8 + 8 * rest.length = pos + 8 * (rest.length + 1) by omega]
    rfl

theorem run_decode {pairs : List (Int32 × UInt32)} (h : pairs.length < 2 ^ 32) (base pos : Nat)
    (tail : Bytes) :
    (decode (UInt32.ofNat pairs.length)).run ⟨base, pos, pairs.flatMap encodePair ++ tail⟩ =
      ⟨.ok (insertAll [] pairs), ⟨base, pos + 8 * pairs.length, tail⟩, replacedAll [] pairs⟩ := by
  rw [decode, UInt32.toNat_ofNat', Nat.mod_eq_of_lt h, run_decodeInto]

/-! ### Entries -/

/-- In an ascending map the entries are what looking up finds. -/
theorem mem_iff_find? {map : LineMap} (h : map.Ascending) (token : Int32) (packed : UInt32) :
    (token, packed) ∈ map ↔ map.find? token = some packed := by
  rw [find?, List.lookup_eq_some_iff]
  constructor
  · intro hmem
    obtain ⟨front, back, rfl⟩ := List.mem_iff_append.mp hmem
    refine ⟨front, back, rfl, fun entry hentry => ?_⟩
    have hlt : entry.1 < token :=
      (List.pairwise_append.mp h).2.2 entry hentry (token, packed) List.mem_cons_self
    exact bne_iff_ne.mpr (Int32.ne_of_lt hlt).symm
  · rintro ⟨front, back, rfl, -⟩
    exact List.mem_append_right _ List.mem_cons_self

/-- The pair is listed, and no pair behind it names its token. -/
def IsLast (pair : Int32 × UInt32) (pairs : List (Int32 × UInt32)) : Prop :=
  ∃ front back, pairs = front ++ pair :: back ∧ ∀ later ∈ back, later.1 ≠ pair.1

theorem ascending_insertAll_nil (pairs : List (Int32 × UInt32)) : (insertAll [] pairs).Ascending :=
  ascending_insertAll .nil pairs

theorem find?_insertAll_reverse (pairs : List (Int32 × UInt32)) (token : Int32) :
    (insertAll [] pairs).find? token = pairs.reverse.lookup token :=
  (lastWins_iff.mpr rfl).find?_eq token

/-- **The last pair of a token is kept, and nothing else.** -/
theorem mem_insertAll_iff (pairs : List (Int32 × UInt32)) (pair : Int32 × UInt32) :
    pair ∈ insertAll [] pairs ↔ IsLast pair pairs := by
  obtain ⟨token, packed⟩ := pair
  rw [mem_iff_find? (ascending_insertAll_nil pairs), find?_insertAll_reverse,
    List.lookup_eq_some_iff]
  constructor
  · rintro ⟨back, front, hpairs, hback⟩
    refine ⟨front.reverse, back.reverse, ?_, fun later hlater => ?_⟩
    · simpa using List.reverse_eq_iff.mp hpairs
    · exact (bne_iff_ne.mp (hback later (List.mem_reverse.mp hlater))).symm
  · rintro ⟨front, back, rfl, hback⟩
    refine ⟨back.reverse, front.reverse, by simp, fun later hlater => ?_⟩
    exact bne_iff_ne.mpr (hback later (List.mem_reverse.mp hlater)).symm

theorem mem_keys_insertAll_iff (pairs : List (Int32 × UInt32)) (token : Int32) :
    token ∈ (insertAll [] pairs).map Prod.fst ↔ token ∈ pairs.map Prod.fst := by
  have hfind : token ∈ (insertAll [] pairs).map Prod.fst ↔
      ∃ packed, (insertAll [] pairs).find? token = some packed := by
    simp only [List.mem_map, Prod.exists, exists_and_right, exists_eq_right,
      mem_iff_find? (ascending_insertAll_nil pairs)]
  rw [hfind, ← Option.isSome_iff_exists, find?_insertAll_reverse, List.lookup_isSome_iff,
    List.mem_map]
  refine exists_congr fun pair => ?_
  rw [List.mem_reverse, beq_iff_eq, eq_comm (a := token)]

/-! ### One notice for each pair that is not kept -/

theorem length_insert {map : LineMap} (h : map.Ascending) (pair : Int32 × UInt32) :
    (map.insert pair.1 pair.2).length + (replaced map pair).length = map.length + 1 := by
  obtain ⟨token, packed⟩ := pair
  induction map with
  | nil => rfl
  | cons entry rest ih =>
    obtain ⟨s, p⟩ := entry
    obtain ⟨hentry, hrest⟩ := List.pairwise_cons.mp h
    rw [insert]
    split
    · next hlt =>
      -- a token below the first has no entry
      have hnone : find? ((s, p) :: rest) token = none := by
        refine find?_eq_none_of_lt fun other hother => ?_
        rcases List.mem_cons.mp hother with rfl | hother
        · exact hlt
        · exact Int32.lt_trans hlt (hentry other hother)
      simp [replaced, hnone]
    · split
      · next heq =>
        have hsome : find? ((s, p) :: rest) token = some p := by
          rw [find?_cons, if_pos heq]
        simp [replaced, hsome]
      · next hne =>
        have hsame : replaced ((s, p) :: rest) (token, packed) = replaced rest (token, packed) := by
          simp only [replaced, find?_cons, if_neg hne]
        rw [hsame, List.length_cons, List.length_cons]
        have := ih hrest
        omega

/-- **Nothing is lost without a notice.** Every pair has an entry in the map or a notice. -/
theorem length_replacedAll {map : LineMap} (h : map.Ascending) (pairs : List (Int32 × UInt32)) :
    (insertAll map pairs).length + (replacedAll map pairs).length =
      map.length + pairs.length := by
  induction pairs generalizing map with
  | nil => rfl
  | cons pair rest ih =>
    have hpair := length_insert h pair
    have hascending : (map.insert pair.1 pair.2).Ascending := ascending_insert h
    have hrest := ih hascending
    rw [insertAll] at hrest
    rw [insertAll, List.foldl_cons, replacedAll, List.length_append, List.length_cons]
    omega

theorem exists_of_mem_replacedAll {map : LineMap} {pairs : List (Int32 × UInt32)} {n : Notice}
    (h : n ∈ replacedAll map pairs) :
    ∃ token before after, n = .lineReplaced token before after := by
  induction pairs generalizing map with
  | nil => cases h
  | cons pair rest ih =>
    rcases List.mem_append.mp h with h | h
    · rw [replaced] at h
      split at h
      · exact ⟨_, _, _, List.mem_singleton.mp h⟩
      · cases h
    · exact ih h

/-! ### One token -/

/-- The packed positions that pairs give a token, in order. -/
def positionsOf (token : Int32) (pairs : List (Int32 × UInt32)) : List UInt32 :=
  (pairs.filter (·.1 = token)).map Prod.snd

/-- Before and after of each notice that an entry of the token was replaced, in order. -/
def changesOf (token : Int32) (notices : List Notice) : List (UInt32 × UInt32) :=
  notices.filterMap fun
    | .lineReplaced t before after => if t = token then some (before, after) else none
    | _ => none

/-- Each value with the next one. -/
def steps (values : List UInt32) : List (UInt32 × UInt32) := values.zip values.tail

theorem positionsOf_cons (token : Int32) (pair : Int32 × UInt32) (rest : List (Int32 × UInt32)) :
    positionsOf token (pair :: rest) =
      if pair.1 = token then pair.2 :: positionsOf token rest else positionsOf token rest := by
  by_cases h : pair.1 = token <;> simp [positionsOf, h]

theorem lookup_reverse (token : Int32) (pairs : List (Int32 × UInt32)) :
    pairs.reverse.lookup token = (positionsOf token pairs).getLast? := by
  induction pairs with
  | nil => rfl
  | cons pair rest ih =>
    obtain ⟨s, p⟩ := pair
    rw [List.reverse_cons, List.lookup_append, ih, positionsOf_cons]
    by_cases h : s = token
    · cases hrest : positionsOf token rest with
      | nil => simp [h]
      | cons q qs => simp [h, List.getLast?_cons]
    · have hne : (token == s) = false := by simpa using Ne.symm h
      simp [h, List.lookup_cons, hne]

/-- **The last position of a token is the one that is found.** -/
theorem find?_insertAll_nil (pairs : List (Int32 × UInt32)) (token : Int32) :
    (insertAll [] pairs).find? token = (positionsOf token pairs).getLast? := by
  rw [find?_insertAll_reverse, lookup_reverse]

theorem changesOf_append (token : Int32) (ns ns' : List Notice) :
    changesOf token (ns ++ ns') = changesOf token ns ++ changesOf token ns' :=
  List.filterMap_append

theorem changesOf_replaced (token : Int32) (map : LineMap) (pair : Int32 × UInt32) :
    changesOf token (replaced map pair) =
      if pair.1 = token then (map.find? token).toList.map (·, pair.2) else [] := by
  rw [replaced]
  by_cases h : pair.1 = token
  · rw [if_pos h, ← h]
    cases map.find? pair.1 <;> simp [changesOf]
  · rw [if_neg h]
    cases map.find? pair.1 <;> simp [changesOf, h]

/-- **The notices of a token are a chain.** They lead from the position it had through all that the
pairs give it, each step starting where the one before ended. -/
theorem changesOf_replacedAll (token : Int32) (map : LineMap) (pairs : List (Int32 × UInt32)) :
    changesOf token (replacedAll map pairs) =
      steps ((map.find? token).toList ++ positionsOf token pairs) := by
  induction pairs generalizing map with
  | nil => cases h : map.find? token <;> rfl
  | cons pair rest ih =>
    rw [replacedAll, changesOf_append, changesOf_replaced, ih, find?_insert, positionsOf_cons]
    by_cases h : pair.1 = token
    · -- the position of this pair ends one step and starts the next
      rw [if_pos h, if_pos h.symm, if_pos h]
      cases map.find? token <;> rfl
    · rw [if_neg h, if_neg (Ne.symm h), if_neg h, List.nil_append]

/-! ### Other orders -/

/-- The same pairs in another order, but those of one token in the same order. -/
structure Reordered (pairs pairs' : List (Int32 × UInt32)) : Prop where
  /-- Every pair occurs as often. -/
  perm : pairs.Perm pairs'
  /-- The pairs of one token keep their order. -/
  positionsOf_eq : ∀ token, positionsOf token pairs = positionsOf token pairs'

theorem insertAll_eq_of_reordered {pairs pairs' : List (Int32 × UInt32)}
    (h : Reordered pairs pairs') : insertAll [] pairs = insertAll [] pairs' := by
  refine eq_of_find?_eq (ascending_insertAll_nil pairs) (ascending_insertAll_nil pairs')
    fun token => ?_
  rw [find?_insertAll_nil, find?_insertAll_nil, h.positionsOf_eq token]

/-! ### The whole -/

/-- A map and notices tell what the pairs said. -/
structure Faithful (pairs : List (Int32 × UInt32)) (map : LineMap) (notices : List Notice) :
    Prop where
  /-- The tokens of the map are those of the pairs. -/
  tokens : ∀ token, token ∈ map.map Prod.fst ↔ token ∈ pairs.map Prod.fst
  /-- They ascend as signed numbers, so none occurs twice. -/
  ascending : (map.map Prod.fst).Pairwise fun a b => a.toInt < b.toInt
  /-- Each token has the position that its last pair gives it. -/
  last : ∀ pair, pair ∈ map ↔ IsLast pair pairs
  /-- Looking up a token finds that position. -/
  find?_eq : ∀ token, map.find? token = (positionsOf token pairs).getLast?
  /-- All notices are debug records of a replaced entry. -/
  debug : ∀ n ∈ notices,
    n.level = .debug ∧ ∃ token before after, n = .lineReplaced token before after
  /-- There are as many as pairs that are not in the map. -/
  count : map.length ≤ pairs.length ∧ notices.length = pairs.length - map.length
  /-- Those of a token lead through its positions, in order. -/
  chain : ∀ token, changesOf token notices = steps (positionsOf token pairs)

theorem faithful_insertAll (pairs : List (Int32 × UInt32)) :
    Faithful pairs (insertAll [] pairs) (replacedAll [] pairs) where
  tokens := mem_keys_insertAll_iff pairs
  ascending := by
    rw [List.pairwise_map]
    exact (ascending_insertAll_nil pairs).imp fun h => Int32.lt_iff_toInt_lt.mp h
  last := mem_insertAll_iff pairs
  find?_eq := find?_insertAll_nil pairs
  debug := by
    intro n hn
    obtain ⟨token, before, after, rfl⟩ := exists_of_mem_replacedAll hn
    exact ⟨rfl, token, before, after, rfl⟩
  count := by
    have h := length_replacedAll (show Ascending [] from .nil) pairs
    rw [List.length_nil] at h
    omega
  chain := fun token => changesOf_replacedAll token [] pairs

/-- **A line map keeps the last pair of each token and says what it lost.** Stored pairs are read
whatever follows them, eight bytes for each. The map has exactly their tokens, ascending, each with
the position of its last pair; every pair that is not kept has its notice, and the notices of a
token lead through its positions in order. Pairs in another order give the same map if those of
each token stay in order. -/
theorem decode_faithful {pairs : List (Int32 × UInt32)} (hcount : pairs.length < 2 ^ 32)
    (base pos : Nat) (tail : Bytes) :
    ∃ map notices,
      (decode (UInt32.ofNat pairs.length)).run ⟨base, pos, pairs.flatMap encodePair ++ tail⟩ =
          ⟨.ok map, ⟨base, pos + 8 * pairs.length, tail⟩, notices⟩ ∧
        Faithful pairs map notices ∧
        ∀ (pairs' : List (Int32 × UInt32)) (base' pos' : Nat) (tail' : Bytes),
          Reordered pairs pairs' →
          ((decode (UInt32.ofNat pairs'.length)).run
            ⟨base', pos', pairs'.flatMap encodePair ++ tail'⟩).outcome = .ok map := by
  refine ⟨insertAll [] pairs, replacedAll [] pairs, run_decode hcount base pos tail,
    faithful_insertAll pairs, fun pairs' base' pos' tail' h => ?_⟩
  have hcount' : pairs'.length < 2 ^ 32 := h.perm.length_eq ▸ hcount
  rw [run_decode hcount' base' pos' tail', insertAll_eq_of_reordered h]

/-- Pairs that give two tokens more than one position, one of them the same position twice. -/
def repeated : List (Int32 × UInt32) :=
  [(7, 100), (-1, 5), (7, 200), (-0x80000000, 9), (7, 200), (-1, 6)]

/-- The pairs of `repeated`, grouped by token. -/
def grouped : List (Int32 × UInt32) :=
  [(-1, 5), (-1, 6), (7, 100), (7, 200), (7, 200), (-0x80000000, 9)]

theorem reordered_repeated : Reordered repeated grouped where
  perm := by decide
  positionsOf_eq := by
    intro token
    by_cases hseven : token = 7
    · subst hseven; rfl
    by_cases hone : token = -1
    · subst hone; rfl
    -- neither token that occurs twice is left, so the order cannot be seen
    simp only [repeated, grouped, positionsOf_cons, if_neg (Ne.symm hseven), if_neg (Ne.symm hone)]

theorem decode_faithful_repeated :
    repeated.length < 2 ^ 32 ∧ Reordered repeated grouped ∧
      ∃ map notices,
        (decode 6).run (Cursor.start (repeated.flatMap encodePair ++ [0xEE])) =
            ⟨.ok map, ⟨0, 48, [0xEE]⟩, notices⟩ ∧
          Faithful repeated map notices ∧
          map = [(-0x80000000, 9), (-1, 6), (7, 200)] ∧
          notices = [.lineReplaced 7 100 200, .lineReplaced 7 200 200, .lineReplaced (-1) 5 6] ∧
          ((decode 6).run ⟨3, 5, grouped.flatMap encodePair⟩).outcome = .ok map := by
  have hcount : repeated.length < 2 ^ 32 := by decide
  obtain ⟨map, notices, hrun, hfaithful, hreordered⟩ := decode_faithful hcount 0 0 [0xEE]
  have hother := hreordered grouped 3 5 [] reordered_repeated
  rw [List.append_nil] at hother
  have hknown : (decode 6).run (Cursor.start (repeated.flatMap encodePair ++ [0xEE])) =
      ⟨.ok [(-0x80000000, 9), (-1, 6), (7, 200)], ⟨0, 48, [0xEE]⟩,
        [.lineReplaced 7 100 200, .lineReplaced 7 200 200, .lineReplaced (-1) 5 6]⟩ := by rfl
  have hsame := hknown.symm.trans hrun
  rw [Progress.mk.injEq, Except.ok.injEq] at hsame
  exact ⟨hcount, reordered_repeated, map, notices, hrun, hfaithful, hsame.1.symm, hsame.2.2.symm,
    hother⟩

end AssetPack.Script.LineMap
