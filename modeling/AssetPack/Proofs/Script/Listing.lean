import AssetPack.Script.Listing
import Mathlib.Data.List.Forall2

/-!
# What a listing is made of

A token stream is written out token by token, and nothing is carried from one token to the next. The
text of a token word is a function of two numbers in it, the low seven bits and the bits above the
marker; `Listing.rendering` is that function, written down without the tables of spellings and
without a position. Everything about listings follows from two facts: `Listing.emit` renders the
word (`emit_eq`), and a listing is its renderings in a row up to the first that fails.

Of the two sorts of errors only one says where it happened, so `ListingError.moved` is all that the
position of a stream inside a longer one can change.

## Main results

* `emit_eq`: the text of a token does not depend on its place.
* `text_eq_ok_iff`, `text_eq_error_iff`: when a stream has a text, and which error it has if not.
* `text_append`: the listing of two streams in a row.
-/

namespace AssetPack.Script

/-- The error for a token that stands `distance` tokens further on. -/
def ListingError.moved (distance : Nat) : ListingError → ListingError
  | badIndex table index length => .badIndex table index length
  | unknownToken opcode position => .unknownToken opcode (position + distance)

theorem ListingError.moved_moved (m n : Nat) (e : ListingError) :
    (e.moved m).moved n = e.moved (m + n) := by
  cases e with
  | badIndex table index length => rfl
  | unknownToken opcode position => simp only [moved, Nat.add_assoc]

namespace Token

theorem toNat_opcode (t : Token) : t.opcode.toNat = t.word.toNat % 128 := by
  have hmask : (t.word &&& 0x7F).toNat = t.word.toNat % 128 := by
    rw [UInt32.toNat_and]
    exact Nat.and_two_pow_sub_one_eq_mod t.word.toNat 7
  rw [opcode, UInt32.toNat_toUInt8, hmask]
  omega

theorem toNat_operand (t : Token) : t.operand.toNat = t.word.toNat / 256 := by
  rw [operand, UInt32.toNat_shiftRight, Nat.shiftRight_eq_div_pow]
  rfl

end Token

theorem Builtin.typeName?_eq_none_iff (n : Nat) :
    Builtin.typeName? n = none ↔ n = 0 ∨ Builtin.typeCount ≤ n := by
  by_cases hlt : n < 27
  · have hnamed : ∀ m < 27, (Builtin.typeName? m = none ↔ m = 0) := by decide
    have hcount : ¬ Builtin.typeCount ≤ n := Nat.not_le.mpr hlt
    simp [hnamed n hlt, hcount]
  · have hpast : ValueKind.ofNumber? n = none := List.getElem?_eq_none (Nat.not_lt.mp hlt)
    have hcount : Builtin.typeCount ≤ n := Nat.not_lt.mp hlt
    simp [Builtin.typeName?, hpast, hcount]

namespace Listing

/-! ### Renderings -/

/-- The entry of a table of texts that an operand points to. -/
def pick (table : Table) (texts : List String) (operand : Nat) : Except ListingError String :=
  match texts[operand]? with
  | some text => .ok text
  | none => .error (.badIndex table (UInt32.ofNat operand) texts.length)

/-- The name of the builtin type with a given number. The first, the nil type, has none. -/
def pickType (operand : Nat) : Except ListingError String :=
  match Builtin.typeName? operand with
  | some name => .ok name
  | none =>
    let table := if operand = 0 then Table.builtinNil else Table.builtinType
    .error (.badIndex table (UInt32.ofNat operand) 27)

/-- The text of a kind of token that takes no operand: its fixed text, or its name and a blank. -/
def fixedText (kind : Nat) : String :=
  ((Opcode.ofNumber? kind).map fun op => op.literal?.getD (op.name ++ " ")).getD ""

/-- The text of a token word, or the error that it has at the start of a stream. -/
def rendering (tables : Tables) (word : UInt32) : Except ListingError String :=
  let kind := word.toNat % 128
  let operand := word.toNat / 256
  if 97 < kind then .error (.unknownToken (UInt8.ofNat kind) 0)
  else match kind with
    | 1 => pick .identifier tables.identifiers operand
    | 2 => pick .constant (tables.constants.map Constant.text) operand
    | 4 => pickType operand
    | 5 => pick .builtinFunction Builtin.functions operand
    | 89 => .ok (String.ofList ('\n' :: List.replicate operand '\t'))
    | 96 => .ok ""
    | _ => .ok (fixedText kind)

/-- The rule that a kind of token follows, read off its number. -/
def spellingOf (kind : Nat) : Spelling :=
  match kind with
  | 1 => .identifier
  | 2 => .constant
  | 4 => .builtinType
  | 5 => .builtinFunction
  | 89 => .newline
  | 96 => .nothing
  | _ => (((Opcode.ofNumber? kind).bind Opcode.literal?).map .literal).getD .named

theorem spelling_of_number : ∀ kind < 98,
    (Opcode.ofNumber? kind).map Opcode.spelling = some (spellingOf kind) := by
  decide

theorem lineBreak_eq (depth : Nat) :
    lineBreak depth = String.ofList ('\n' :: List.replicate depth '\t') := by
  apply String.toList_inj.1
  rw [lineBreak, String.pushn_eq_repeat_push, String.toList_ofList]
  induction depth with
  | zero => rfl
  | succ depth ih =>
    rw [Nat.repeat, String.toList_push, ih, List.replicate_succ', List.cons_append]

theorem map_entry_eq_pick {α : Type} (text : α → String) (table : Table) (entries : List α)
    (index : UInt32) :
    (entry table entries index).map text = pick table (entries.map text) index.toNat := by
  rw [entry, pick, List.getElem?_map, UInt32.ofNat_toNat, List.length_map]
  cases entries[index.toNat]? with
  | none => rfl
  | some a => rfl

theorem entry_eq_pick (table : Table) (texts : List String) (index : UInt32) :
    entry table texts index = pick table texts index.toNat := by
  have h := map_entry_eq_pick id table texts index
  rw [List.map_id] at h
  rw [← h]
  cases entry table texts index with
  | error e => rfl
  | ok text => rfl

theorem builtinType_eq_pickType (index : UInt32) : builtinType index = pickType index.toNat := by
  rw [builtinType, pickType, UInt32.ofNat_toNat]
  cases hname : Builtin.typeName? index.toNat with
  | some name => rfl
  | none =>
    have hcount : Builtin.typeCount = 27 := rfl
    rcases (Builtin.typeName?_eq_none_iff index.toNat).mp hname with hzero | hpast
    · simp [hzero, hcount]
    · have hne : index.toNat ≠ 0 := by omega
      rw [if_neg (Nat.not_lt.mpr hpast), if_neg hne, hcount]

theorem pick_mapError_moved (table : Table) (texts : List String) (operand distance : Nat) :
    (pick table texts operand).mapError (.moved distance) = pick table texts operand := by
  rw [pick]
  cases texts[operand]? with
  | none => rfl
  | some text => rfl

theorem pickType_mapError_moved (operand distance : Nat) :
    (pickType operand).mapError (.moved distance) = pickType operand := by
  rw [pickType]
  cases Builtin.typeName? operand with
  | none => rfl
  | some name => rfl

/-- **The text of a token does not depend on its place.** The place only shows in the error of a
word that is no token. -/
theorem emit_eq (tables : Tables) (position : Nat) (token : Token) :
    emit tables position token = (rendering tables token.word).mapError (.moved position) := by
  have hkind := token.toNat_opcode
  have hoperand := token.toNat_operand
  have hlt : token.word.toNat % 128 < 128 := Nat.mod_lt _ (by decide)
  rw [emit, Token.op?, rendering, hkind, ← hoperand]
  generalize token.word.toNat % 128 = kind at hkind hlt
  by_cases hunknown : 97 < kind
  · have hnone : Opcode.ofNumber? kind = none := List.getElem?_eq_none (by
      rw [Opcode.length_all]
      omega)
    have hopcode : token.opcode = UInt8.ofNat kind := by rw [← hkind, UInt8.ofNat_toNat]
    simp only [hnone, if_pos hunknown, hopcode]
    show _ = Except.error (ListingError.unknownToken _ (0 + position))
    rw [Nat.zero_add]
  · obtain ⟨op, hop, hspelling⟩ :=
      Option.map_eq_some_iff.mp (spelling_of_number kind (by omega))
    simp only [hop, if_neg hunknown]
    unfold spellingOf at hspelling
    split at hspelling
    · simp only [hspelling, entry_eq_pick, pick_mapError_moved]
    · simp only [hspelling, map_entry_eq_pick, pick_mapError_moved]
    · simp only [hspelling, builtinType_eq_pickType, pickType_mapError_moved]
    · simp only [hspelling, entry_eq_pick, pick_mapError_moved]
    · simp only [hspelling, lineBreak_eq, Except.mapError]
    · simp only [hspelling, Except.mapError]
    · simp only [hspelling, hop, fixedText, Option.bind_some, Option.map_some, Option.getD_some]
      cases op.literal? with
      | none => rfl
      | some text => rfl

/-! ### Streams -/

/-- The tokens render to the texts, one by one. -/
def Renders (tables : Tables) : List Token → List String → Prop :=
  List.Forall₂ fun token text => rendering tables token.word = .ok text

theorem pieces_cons_of_ok {tables : Tables} {token : Token} {text : String}
    (h : rendering tables token.word = .ok text) (position : Nat) (rest : List Token) :
    pieces tables position (token :: rest) =
      (pieces tables (position + 1) rest).map (text :: ·) := by
  rw [pieces, emit_eq, h]
  simp only [Except.mapError]
  cases pieces tables (position + 1) rest with
  | error e => rfl
  | ok texts => rfl

theorem pieces_cons_of_error {tables : Tables} {token : Token} {e : ListingError}
    (h : rendering tables token.word = .error e) (position : Nat) (rest : List Token) :
    pieces tables position (token :: rest) = .error (e.moved position) := by
  rw [pieces, emit_eq, h]
  rfl

/-- Tokens that render make way for what follows them. -/
theorem pieces_append {tables : Tables} {front : List Token} {texts : List String}
    (h : Renders tables front texts) (position : Nat) (back : List Token) :
    pieces tables position (front ++ back) =
      (pieces tables (position + front.length) back).map (texts ++ ·) := by
  induction h generalizing position with
  | nil =>
    show pieces tables position back = (pieces tables position back).map fun texts => texts
    cases pieces tables position back with
    | error e => rfl
    | ok texts => rfl
  | @cons token text front texts htoken _ ih =>
    have hposition : position + 1 + front.length = position + (token :: front).length := by
      rw [List.length_cons]
      omega
    rw [List.cons_append, pieces_cons_of_ok htoken, ih, hposition]
    cases pieces tables (position + (token :: front).length) back with
    | error e => rfl
    | ok texts => rfl

theorem text_of_renders {tables : Tables} {tokens : List Token} {texts : List String}
    (h : Renders tables tokens texts) : text tables tokens = .ok (String.join texts) := by
  have hpieces := pieces_append h 0 []
  rw [List.append_nil] at hpieces
  rw [text, hpieces]
  show Except.ok (String.join (texts ++ [])) = _
  rw [List.append_nil]

theorem text_of_fails {tables : Tables} {front : List Token} {texts : List String} {token : Token}
    {e : ListingError} (hfront : Renders tables front texts)
    (htoken : rendering tables token.word = .error e) (back : List Token) :
    text tables (front ++ token :: back) = .error (e.moved front.length) := by
  rw [text, pieces_append hfront, pieces_cons_of_error htoken, Nat.zero_add]
  rfl

/-- Either all tokens render, or there is a first one that does not. -/
theorem renders_or_fails (tables : Tables) (tokens : List Token) :
    (∃ texts, Renders tables tokens texts) ∨
    ∃ front token back texts e, tokens = front ++ token :: back ∧ Renders tables front texts ∧
      rendering tables token.word = .error e := by
  induction tokens with
  | nil => exact .inl ⟨[], .nil⟩
  | cons token rest ih =>
    cases htoken : rendering tables token.word with
    | error e => exact .inr ⟨[], token, rest, [], e, rfl, .nil, htoken⟩
    | ok text =>
      rcases ih with ⟨texts, hrest⟩ | ⟨front, bad, back, texts, e, rfl, hfront, hbad⟩
      · exact .inl ⟨text :: texts, .cons htoken hrest⟩
      · exact .inr ⟨token :: front, bad, back, text :: texts, e, rfl, .cons htoken hfront, hbad⟩

theorem exists_renders_iff {tables : Tables} {tokens : List Token} :
    (∃ texts, Renders tables tokens texts) ↔
      ∀ t ∈ tokens, ∃ text, rendering tables t.word = .ok text := by
  constructor
  · rintro ⟨texts, h⟩
    induction h with
    | nil => simp
    | cons htoken _ ih => exact List.forall_mem_cons.mpr ⟨⟨_, htoken⟩, ih⟩
  · intro h
    rcases renders_or_fails tables tokens with hall | ⟨_, token, _, _, e, rfl, -, htoken⟩
    · exact hall
    · obtain ⟨text, hok⟩ := h token (by simp)
      cases htoken.symm.trans hok

theorem text_eq_ok_iff {tables : Tables} {tokens : List Token} {s : String} :
    text tables tokens = .ok s ↔ ∃ texts, Renders tables tokens texts ∧ s = String.join texts := by
  constructor
  · intro h
    rcases renders_or_fails tables tokens with
      ⟨texts, hall⟩ | ⟨front, token, back, texts, e, rfl, hfront, htoken⟩
    · rw [text_of_renders hall, Except.ok.injEq] at h
      exact ⟨texts, hall, h.symm⟩
    · rw [text_of_fails hfront htoken] at h
      cases h
  · rintro ⟨texts, hall, rfl⟩
    exact text_of_renders hall

theorem text_eq_error_iff {tables : Tables} {tokens : List Token} {e : ListingError} :
    text tables tokens = .error e ↔
      ∃ front token back e₀, tokens = front ++ token :: back ∧
        (∀ t ∈ front, ∃ text, rendering tables t.word = .ok text) ∧
        rendering tables token.word = .error e₀ ∧ e = e₀.moved front.length := by
  constructor
  · intro h
    rcases renders_or_fails tables tokens with
      ⟨texts, hall⟩ | ⟨front, token, back, texts, e₀, rfl, hfront, htoken⟩
    · rw [text_of_renders hall] at h
      cases h
    · rw [text_of_fails hfront htoken, Except.error.injEq] at h
      exact ⟨front, token, back, e₀, rfl, exists_renders_iff.mp ⟨texts, hfront⟩, htoken, h.symm⟩
  · rintro ⟨front, token, back, e₀, rfl, hfront, htoken, rfl⟩
    obtain ⟨texts, hfront⟩ := exists_renders_iff.mpr hfront
    exact text_of_fails hfront htoken back

/-- **Two streams in a row.** The error of the second is moved by the length of the first. -/
theorem text_append (tables : Tables) (a b : List Token) :
    text tables (a ++ b) =
      match text tables a, text tables b with
      | .ok s, .ok s' => .ok (s ++ s')
      | .ok _, .error e => .error (e.moved a.length)
      | .error e, _ => .error e := by
  rcases renders_or_fails tables a with
    ⟨texts, ha⟩ | ⟨front, token, back, texts, e, rfl, hfront, htoken⟩
  · rcases renders_or_fails tables b with
      ⟨texts', hb⟩ | ⟨front, token, back, texts', e, rfl, hfront, htoken⟩
    · rw [text_of_renders (List.rel_append ha hb), text_of_renders ha, text_of_renders hb,
        String.join_append]
    · rw [← List.append_assoc, text_of_fails (List.rel_append ha hfront) htoken,
        text_of_renders ha, text_of_fails hfront htoken]
      show _ = Except.error ((e.moved front.length).moved a.length)
      rw [ListingError.moved_moved, List.length_append, Nat.add_comm]
  · rw [List.append_assoc, List.cons_append, text_of_fails hfront htoken,
      text_of_fails hfront htoken]

/-- **A listing is its tokens one by one.** A stream has a text exactly if every token renders, and
then the text is the renderings in a row. Otherwise the error is the one of the first token that
does not render, stated for the place of that token. So the listing of two streams in a row is made
from their listings. -/
theorem text_tokenwise (tables : Tables) :
    (∀ tokens, (∃ s, text tables tokens = .ok s) ↔
      ∀ t ∈ tokens, ∃ s, rendering tables t.word = .ok s) ∧
    (∀ tokens s, text tables tokens = .ok s ↔
      ∃ texts, Renders tables tokens texts ∧ s = String.join texts) ∧
    (∀ tokens e, text tables tokens = .error e ↔
      ∃ front token back e₀, tokens = front ++ token :: back ∧
        (∀ t ∈ front, ∃ s, rendering tables t.word = .ok s) ∧
        rendering tables token.word = .error e₀ ∧ e = e₀.moved front.length) ∧
    ∀ a b, text tables (a ++ b) =
      match text tables a, text tables b with
      | .ok s, .ok s' => .ok (s ++ s')
      | .ok _, .error e => .error (e.moved a.length)
      | .error e, _ => .error e := by
  refine ⟨fun tokens => ?_, fun tokens s => text_eq_ok_iff, fun tokens e => text_eq_error_iff,
    text_append tables⟩
  rw [← exists_renders_iff]
  constructor
  · rintro ⟨s, hs⟩
    obtain ⟨texts, hall, -⟩ := text_eq_ok_iff.mp hs
    exact ⟨texts, hall⟩
  · rintro ⟨texts, hall⟩
    exact ⟨_, text_of_renders hall⟩

example : text ⟨["x"], [.int 5]⟩ [⟨0x159⟩, ⟨1⟩, ⟨0x17⟩, ⟨2⟩, ⟨96⟩] = .ok "\n\tx= 5" := by decide

example : text ⟨["x"], []⟩ [⟨1⟩, ⟨0x17⟩, ⟨0xFE⟩, ⟨0x101⟩] = .error (.unknownToken 0x7E 2) := by
  decide

end Listing

end AssetPack.Script
