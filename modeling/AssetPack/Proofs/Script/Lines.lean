import AssetPack.Proofs.Script.Listing
import Mathlib.Algebra.GroupWithZero.Nat
import Mathlib.Data.List.TakeWhile

/-!
# The lines of a listing

Line breaks are tokens like any other: they write a line feed and as many tabs as their operand
says. What makes a listing readable as lines is that nothing else writes either character, as long
as the identifiers and the constants in the tables do not. Then the text can be cut at the line
feeds, and the tabs in front of a line tell its depth, without a look at the lines before it.

The tokens of a stream are grouped by its line breaks (`lines`), and the text is cut by
`readLines`, which knows nothing about tokens. The main theorem matches the two.

## Main definitions

* `Line`, `readLines`: the lines of a text.
* `Token.breaksLine`, `lines`: the lines of a token stream.
* `Tables.Unbroken`: tables whose texts hold neither a line feed nor a tab.

## Main results

* `unbroken_of_rendering`: only line breaks write line feeds and tabs.
* `readLines_eq`: lines that hold neither are read back.
* `text_lines`: the lines of a listing are the lines of its tokens.
-/

namespace AssetPack.Script

/-- A line: how deep it is indented, and what is on it. -/
structure Line (α : Type) where
  /-- How many tabs it starts with. -/
  depth : Nat
  /-- What is behind the tabs. -/
  content : α
  deriving DecidableEq, Repr

/-- The characters of a line. -/
def Line.chars (line : Line String) : List Char :=
  List.replicate line.depth '\t' ++ line.content.toList

/-- The line that characters form: the tabs in front are counted. -/
def Line.ofChars (chars : List Char) : Line String :=
  ⟨(chars.takeWhile (· == '\t')).length, String.ofList (chars.dropWhile (· == '\t'))⟩

/-- A text without line feeds and tabs. -/
def Unbroken (s : String) : Prop := '\n' ∉ s.toList ∧ '\t' ∉ s.toList

instance (s : String) : Decidable (Unbroken s) :=
  inferInstanceAs (Decidable ('\n' ∉ s.toList ∧ '\t' ∉ s.toList))

theorem unbroken_empty : Unbroken "" := by decide

theorem unbroken_append {s t : String} : Unbroken (s ++ t) ↔ Unbroken s ∧ Unbroken t := by
  simp only [Unbroken, String.toList_append, List.mem_append]
  tauto

theorem Line.chars_ofChars (chars : List Char) : (Line.ofChars chars).chars = chars := by
  have htabs : chars.takeWhile (· == '\t') =
      List.replicate (chars.takeWhile (· == '\t')).length '\t' :=
    List.eq_replicate_of_mem fun c hc => by simpa using List.mem_takeWhile_imp hc
  rw [Line.chars, Line.ofChars, ← htabs, String.toList_ofList, List.takeWhile_append_dropWhile]

theorem Line.ofChars_chars {line : Line String} (h : Unbroken line.content) :
    Line.ofChars line.chars = line := by
  have htabs : ∀ c ∈ List.replicate line.depth '\t', (c == '\t') = true := by simp
  have hstop : line.content.toList.takeWhile (· == '\t') = [] ∧
      line.content.toList.dropWhile (· == '\t') = line.content.toList := by
    cases hchars : line.content.toList with
    | nil => exact ⟨rfl, rfl⟩
    | cons c chars =>
      have hc : ¬ (c == '\t') = true := by
        intro heq
        exact h.2 (by simp [hchars, beq_iff_eq.1 heq])
      exact ⟨List.takeWhile_cons_of_neg hc, List.dropWhile_cons_of_neg hc⟩
  rw [Line.ofChars, Line.chars, List.takeWhile_append_of_pos htabs,
    List.dropWhile_append_of_pos htabs, hstop.1, hstop.2, List.append_nil, List.length_replicate,
    String.ofList_toList]

/-- Tables whose texts hold neither a line feed nor a tab. -/
structure Tables.Unbroken (tables : Tables) : Prop where
  identifiers : ∀ s ∈ tables.identifiers, Script.Unbroken s
  constants : ∀ c ∈ tables.constants, Script.Unbroken c.text

/-- Whether a token starts a new line. -/
def Token.breaksLine (t : Token) : Bool := t.op?.map Opcode.name == some "Newline"

theorem Token.breaksLine_iff (t : Token) : t.breaksLine = true ↔ t.word.toNat % 128 = 89 := by
  have hall : ∀ kind < 128,
      ((Opcode.ofNumber? kind).map Opcode.name == some "Newline") = true ↔ kind = 89 := by
    decide +kernel
  rw [breaksLine, op?, toNat_opcode]
  exact hall _ (Nat.mod_lt _ (by decide))

namespace Listing

/-! ### What tokens write -/

theorem mem_of_pick {table : Table} {texts : List String} {operand : Nat} {s : String}
    (h : pick table texts operand = .ok s) : s ∈ texts := by
  rw [pick] at h
  split at h
  · next text htext =>
    cases h
    exact List.mem_of_getElem? htext
  · cases h

theorem unbroken_of_mem_functions : ∀ name ∈ Builtin.functions, Unbroken name := by
  decide +kernel

theorem unbroken_of_typeName : ∀ n < 27, ∀ name ∈ Builtin.typeName? n, Unbroken name := by
  decide +kernel

theorem unbroken_fixedText : ∀ kind < 98, Unbroken (fixedText kind) := by
  decide +kernel

theorem unbroken_of_pickType {operand : Nat} {s : String} (h : pickType operand = .ok s) :
    Unbroken s := by
  rw [pickType] at h
  split at h
  · next name hname =>
    cases h
    have hlt : operand < 27 := by
      by_contra hle
      have hnone := (Builtin.typeName?_eq_none_iff operand).2 (.inr (Nat.not_lt.1 hle))
      rw [hname] at hnone
      cases hnone
    exact unbroken_of_typeName operand hlt _ hname
  · cases h

/-- **Only line breaks write line feeds and tabs.** -/
theorem unbroken_of_rendering {tables : Tables} (h : tables.Unbroken) {token : Token} {s : String}
    (hline : token.breaksLine = false) (hs : rendering tables token.word = .ok s) :
    Unbroken s := by
  have hkind : token.word.toNat % 128 ≠ 89 := by
    intro heq
    rw [token.breaksLine_iff.2 heq] at hline
    cases hline
  simp only [rendering] at hs
  generalize token.word.toNat % 128 = kind at hs hkind
  split at hs
  · cases hs
  · next hle =>
    split at hs
    · exact h.identifiers s (mem_of_pick hs)
    · obtain ⟨c, hc, rfl⟩ := List.mem_map.1 (mem_of_pick hs)
      exact h.constants c hc
    · exact unbroken_of_pickType hs
    · exact unbroken_of_mem_functions s (mem_of_pick hs)
    · exact absurd rfl hkind
    · cases hs
      exact unbroken_empty
    · cases hs
      exact unbroken_fixedText kind (by omega)

theorem rendering_of_breaksLine (tables : Tables) {token : Token} (h : token.breaksLine = true) :
    rendering tables token.word =
      .ok (String.ofList ('\n' :: List.replicate token.operand.toNat '\t')) := by
  rw [rendering, token.breaksLine_iff.1 h, token.toNat_operand]
  rfl

/-- The tokens write the text one after another, wherever they stand. -/
def Writes (tables : Tables) (tokens : List Token) (s : String) : Prop :=
  ∃ pieces, List.Forall₂ (fun token piece => ∀ position, emit tables position token = .ok piece)
    tokens pieces ∧ s = String.join pieces

theorem writes_nil (tables : Tables) : Writes tables [] "" := ⟨[], .nil, rfl⟩

theorem Writes.cons {tables : Tables} {token : Token} {tokens : List Token} {piece s : String}
    (htoken : rendering tables token.word = .ok piece) (h : Writes tables tokens s) :
    Writes tables (token :: tokens) (piece ++ s) := by
  obtain ⟨pieces, hpieces, rfl⟩ := h
  refine ⟨piece :: pieces, .cons (fun position => ?_) hpieces, String.join_cons.symm⟩
  rw [emit_eq, htoken]
  rfl

/-! ### Lines of a text -/

/-- The lines of a text: it is cut at the line feeds, and the tabs in front of each line are
counted. -/
def readLines (s : String) : List (Line String) := (s.toList.splitOn '\n').map Line.ofChars

/-- Nothing is lost when a text is cut into lines. -/
theorem intercalate_readLines (s : String) :
    List.intercalate ['\n'] ((readLines s).map Line.chars) = s.toList := by
  rw [readLines, List.map_map, show Line.chars ∘ Line.ofChars = id from funext Line.chars_ofChars,
    List.map_id, List.intercalate_splitOn]

theorem intercalate_chars_cons (line : Line String) (behind : List (Line String)) :
    List.intercalate ['\n'] ((line :: behind).map Line.chars) =
      line.chars ++ behind.flatMap fun next => '\n' :: next.chars := by
  induction behind generalizing line with
  | nil => simp
  | cons next behind ih =>
    have hne : (next :: behind).map Line.chars ≠ [] := by simp
    rw [List.map_cons, List.intercalate_cons_of_ne_nil hne, ih, List.flatMap_cons]
    simp

/-- **Lines are read back** if they hold neither line feeds nor tabs of their own. -/
theorem readLines_eq {s : String} {lines : List (Line String)} (hne : lines ≠ [])
    (hlines : ∀ line ∈ lines, Unbroken line.content)
    (h : s.toList = List.intercalate ['\n'] (lines.map Line.chars)) : readLines s = lines := by
  have hfeeds : ∀ chars ∈ lines.map Line.chars, '\n' ∉ chars := by
    intro chars hchars
    obtain ⟨line, hline, rfl⟩ := List.mem_map.1 hchars
    rw [Line.chars, List.mem_append, not_or]
    exact ⟨by simp, (hlines line hline).1⟩
  have hback : ∀ line ∈ lines, (Line.ofChars ∘ Line.chars) line = id line := fun line hline =>
    Line.ofChars_chars (hlines line hline)
  rw [readLines, h, List.splitOn_intercalate '\n' hfeeds (by simpa using hne), List.map_map,
    List.map_congr_left hback, List.map_id]

/-! ### Lines of a token stream -/

/-- How deep the line breaks of a stream indent. -/
def depths (tokens : List Token) : List Nat :=
  (tokens.filter Token.breaksLine).map fun t => t.operand.toNat

/-- The lines of a stream that begins on a line of a given depth. -/
def linesFrom (depth : Nat) (tokens : List Token) : List (Line (List Token)) :=
  List.zipWith Line.mk (depth :: depths tokens) (tokens.splitOnP Token.breaksLine)

/-- The lines of a stream: the tokens before the first line break, and behind each line break the
tokens up to the next, indented as the line break says. -/
def lines (tokens : List Token) : List (Line (List Token)) := linesFrom 0 tokens

theorem linesFrom_nil (depth : Nat) : linesFrom depth [] = [⟨depth, []⟩] := by
  simp [linesFrom, depths]

theorem linesFrom_cons_of_breaksLine {token : Token} (h : token.breaksLine = true) (depth : Nat)
    (rest : List Token) :
    linesFrom depth (token :: rest) = ⟨depth, []⟩ :: linesFrom token.operand.toNat rest := by
  rw [linesFrom, depths, List.splitOnP_cons_eq_if_modifyHead, if_pos h, List.filter_cons_of_pos h]
  rfl

theorem linesFrom_cons_of_not_breaksLine {token : Token} (h : token.breaksLine = false)
    {depth : Nat} {rest : List Token} {group : List Token} {others : List (Line (List Token))}
    (hrest : linesFrom depth rest = ⟨depth, group⟩ :: others) :
    linesFrom depth (token :: rest) = ⟨depth, token :: group⟩ :: others := by
  have hfalse : ¬ token.breaksLine = true := by simp [h]
  rw [linesFrom] at hrest
  rw [linesFrom, depths, List.splitOnP_cons_eq_if_modifyHead, if_neg hfalse,
    List.filter_cons_of_neg hfalse]
  obtain ⟨first, groups, hgroups⟩ :=
    List.exists_cons_of_ne_nil (List.splitOnP_ne_nil Token.breaksLine rest)
  rw [hgroups, List.zipWith_cons_cons, List.cons.injEq, Line.mk.injEq] at hrest
  obtain ⟨⟨-, rfl⟩, rfl⟩ := hrest
  rw [hgroups]
  rfl

theorem exists_linesFrom_eq_cons (depth : Nat) (tokens : List Token) :
    ∃ group others, linesFrom depth tokens = ⟨depth, group⟩ :: others := by
  obtain ⟨group, groups, hgroups⟩ :=
    List.exists_cons_of_ne_nil (List.splitOnP_ne_nil Token.breaksLine tokens)
  exact ⟨group, List.zipWith Line.mk (depths tokens) groups, by rw [linesFrom, hgroups]; rfl⟩

theorem map_depth_linesFrom (depth : Nat) (tokens : List Token) :
    (linesFrom depth tokens).map Line.depth = depth :: depths tokens := by
  induction tokens generalizing depth with
  | nil => rw [linesFrom_nil]; rfl
  | cons token rest ih =>
    cases hline : token.breaksLine with
    | true =>
      rw [linesFrom_cons_of_breaksLine hline, List.map_cons, ih, depths, depths,
        List.filter_cons_of_pos hline, List.map_cons]
    | false =>
      obtain ⟨group, others, hlines⟩ := exists_linesFrom_eq_cons depth rest
      have hrest := ih depth
      rw [hlines] at hrest
      rw [linesFrom_cons_of_not_breaksLine hline hlines, depths,
        List.filter_cons_of_neg (by simp [hline])]
      exact hrest

/-- A line of the text is what the tokens of a line write, and nothing in it could be taken for
layout. -/
structure Shows (tables : Tables) (line : Line (List Token)) (read : Line String) : Prop where
  depth : read.depth = line.depth
  written : Writes tables line.content read.content
  unbroken : Unbroken read.content

theorem shows_blank (tables : Tables) (depth : Nat) : Shows tables ⟨depth, []⟩ ⟨depth, ""⟩ where
  depth := rfl
  written := writes_nil tables
  unbroken := unbroken_empty

theorem unbroken_of_shows {tables : Tables} {stream : List (Line (List Token))}
    {read : List (Line String)} (h : List.Forall₂ (Shows tables) stream read) :
    ∀ line ∈ read, Unbroken line.content := by
  induction h with
  | nil => simp
  | cons hline _ ih => exact List.forall_mem_cons.2 ⟨hline.unbroken, ih⟩

theorem map_depth_of_shows {tables : Tables} {stream : List (Line (List Token))}
    {read : List (Line String)} (h : List.Forall₂ (Shows tables) stream read) :
    read.map Line.depth = stream.map Line.depth := by
  induction h with
  | nil => rfl
  | cons hline _ ih => rw [List.map_cons, List.map_cons, hline.depth, ih]

/-- **What a stream writes, line by line.** The stream begins on a line that is indented already.
What it adds to this line and the lines behind it show the lines of the stream, one by one. The
induction carries the depth of the line that was begun. -/
theorem exists_lines {tables : Tables} (h : tables.Unbroken) {tokens : List Token}
    {texts : List String} (hrenders : Renders tables tokens texts) (depth : Nat) :
    ∃ content behind,
      List.Forall₂ (Shows tables) (linesFrom depth tokens) (⟨depth, content⟩ :: behind) ∧
      (String.join texts).toList =
        content.toList ++ behind.flatMap fun line => '\n' :: line.chars := by
  induction hrenders generalizing depth with
  | nil =>
    refine ⟨"", [], ?_, rfl⟩
    rw [linesFrom_nil]
    exact .cons (shows_blank tables depth) .nil
  | @cons token piece rest texts htoken _ ih =>
    rw [String.join_cons, String.toList_append]
    cases hline : token.breaksLine with
    | true =>
      obtain ⟨content, behind, hshows, hchars⟩ := ih token.operand.toNat
      rw [rendering_of_breaksLine tables hline, Except.ok.injEq] at htoken
      refine ⟨"", ⟨token.operand.toNat, content⟩ :: behind, ?_, ?_⟩
      · rw [linesFrom_cons_of_breaksLine hline]
        exact .cons (shows_blank tables depth) hshows
      · rw [hchars, ← htoken]
        simp [Line.chars]
    | false =>
      obtain ⟨content, behind, hshows, hchars⟩ := ih depth
      obtain ⟨group, others, hlines⟩ := exists_linesFrom_eq_cons depth rest
      rw [hlines] at hshows
      obtain ⟨⟨-, hwritten, hcontent⟩, hothers⟩ := List.forall₂_cons.1 hshows
      have hpiece := unbroken_of_rendering h hline htoken
      refine ⟨piece ++ content, behind, ?_, ?_⟩
      · rw [linesFrom_cons_of_not_breaksLine hline hlines]
        exact .cons ⟨rfl, hwritten.cons htoken, unbroken_append.2 ⟨hpiece, hcontent⟩⟩ hothers
      · rw [hchars, String.toList_append, List.append_assoc]

/-! ### Counting -/

/-- How many line feeds and tabs a token writes. -/
theorem count_of_rendering {tables : Tables} (h : tables.Unbroken) {token : Token} {s : String}
    (hs : rendering tables token.word = .ok s) :
    s.toList.count '\n' = (if token.breaksLine then 1 else 0) ∧
      s.toList.count '\t' = if token.breaksLine then token.operand.toNat else 0 := by
  cases hline : token.breaksLine with
  | true =>
    rw [rendering_of_breaksLine tables hline, Except.ok.injEq] at hs
    simp [← hs, List.count_replicate]
  | false =>
    have hunbroken := unbroken_of_rendering h hline hs
    exact ⟨List.count_eq_zero.2 hunbroken.1, List.count_eq_zero.2 hunbroken.2⟩

theorem count_of_renders {tables : Tables} (h : tables.Unbroken) {tokens : List Token}
    {texts : List String} (hrenders : Renders tables tokens texts) :
    (String.join texts).toList.count '\n' = (tokens.filter Token.breaksLine).length ∧
      (String.join texts).toList.count '\t' = (depths tokens).sum := by
  induction hrenders with
  | nil => exact ⟨rfl, rfl⟩
  | @cons token piece rest texts htoken _ ih =>
    obtain ⟨hfeeds, htabs⟩ := count_of_rendering h htoken
    rw [String.join_cons, String.toList_append, List.count_append, List.count_append, hfeeds, htabs,
      ih.1, ih.2, depths, depths]
    cases hline : token.breaksLine with
    | true => simp [hline, Nat.add_comm]
    | false => simp [hline]

/-! ### Listings -/

/-- **The lines of a listing.** If no identifier and no constant in the tables has a line feed or a
tab in its text, then a listing has a line feed for each line break and no tabs but those that the
line breaks ask for. Cut at its line feeds it gives the lines of the stream: behind the tabs of a
line there is what the tokens of that line write, and this has no tabs. So the depths can be read
off the text, and so can the line that a token is on: there are as many line feeds before its text
as there are line breaks before the token. -/
theorem text_lines {tables : Tables} (h : tables.Unbroken) {tokens : List Token} {s : String}
    (htext : text tables tokens = .ok s) :
    s.toList.count '\n' = (tokens.filter Token.breaksLine).length ∧
    s.toList.count '\t' = (depths tokens).sum ∧
    s.toList = List.intercalate ['\n'] ((readLines s).map Line.chars) ∧
    List.Forall₂ (Shows tables) (lines tokens) (readLines s) ∧
    (readLines s).map Line.depth = 0 :: depths tokens ∧
    ∀ front back, tokens = front ++ back →
      ∃ s₁ s₂, text tables front = .ok s₁ ∧ text tables back = .ok s₂ ∧ s = s₁ ++ s₂ ∧
        s₁.toList.count '\n' = (front.filter Token.breaksLine).length := by
  obtain ⟨texts, hrenders, rfl⟩ := text_eq_ok_iff.1 htext
  obtain ⟨hfeeds, htabs⟩ := count_of_renders h hrenders
  obtain ⟨content, behind, hshows, hchars⟩ := exists_lines h hrenders 0
  have hread : readLines (String.join texts) = ⟨0, content⟩ :: behind := by
    refine readLines_eq (List.cons_ne_nil _ _) (unbroken_of_shows hshows) ?_
    rw [hchars, intercalate_chars_cons]
    rfl
  refine ⟨hfeeds, htabs, (intercalate_readLines _).symm, ?_, ?_, fun front back hsplit => ?_⟩
  · rw [hread]
    exact hshows
  · rw [hread, map_depth_of_shows hshows, map_depth_linesFrom]
  · subst hsplit
    rw [text_append] at htext
    cases hfront : text tables front with
    | error e => simp [hfront] at htext
    | ok s₁ =>
      cases hback : text tables back with
      | error e => simp [hfront, hback] at htext
      | ok s₂ =>
        simp only [hfront, hback, Except.ok.injEq] at htext
        obtain ⟨texts₁, hrenders₁, rfl⟩ := text_eq_ok_iff.1 hfront
        exact ⟨_, s₂, rfl, rfl, htext.symm, (count_of_renders h hrenders₁).1⟩

/-- Two line breaks, the first of which indents. -/
def twoBreaks : List Token := [⟨0x259⟩, ⟨40⟩, ⟨0x59⟩, ⟨1⟩, ⟨0x17⟩, ⟨2⟩]

theorem text_lines_twoBreaks :
    text ⟨["x"], [.nil]⟩ twoBreaks = .ok "\n\t\telse \nx= nil" ∧
      "\n\t\telse \nx= nil".toList.count '\n' = 2 ∧
      List.Forall₂ (Shows ⟨["x"], [.nil]⟩) [⟨0, []⟩, ⟨2, [⟨40⟩]⟩, ⟨0, [⟨1⟩, ⟨0x17⟩, ⟨2⟩]⟩]
        [⟨0, ""⟩, ⟨2, "else "⟩, ⟨0, "x= nil"⟩] := by
  have htables : Tables.Unbroken ⟨["x"], [.nil]⟩ := ⟨by decide, by decide⟩
  have htext : text ⟨["x"], [.nil]⟩ twoBreaks = .ok "\n\t\telse \nx= nil" := by decide
  obtain ⟨hfeeds, -, -, hshows, -, -⟩ := text_lines htables htext
  exact ⟨htext, hfeeds, hshows⟩

end Listing

end AssetPack.Script
