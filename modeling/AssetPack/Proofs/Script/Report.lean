import AssetPack.Script.Report
import Mathlib.Algebra.Group.Nat.Defs

/-!
# What a report is and when it fits

A report is its sections and then the listing. Written to a string it fails only where the listing
does. Written to a writer that takes so many bytes and no more, it can also fail because the writer
is full, and the order matters: the sections are handed over before the listing is made, so whether
the writer is full inside the sections is decided first.

A writer that adds up what it was given does not see where a text was cut into pieces
(`writePieces_eq`). So of the sections only their length counts, and a report fits exactly if the
writer has room for the sections and the listing together.

## Main results

* `writePieces_eq`: what a writer with limited room does with pieces.
* `write_of_lt`, `write_of_listing_error`, `write_of_listing_ok`: the three ways to write a report.
* `text_and_write_iff`: a report agrees with the listing, and with every writer.
-/

namespace AssetPack.Script.Report

/-! ### Limited room -/

/-- **Pieces are taken exactly if all of them together fit.** What is left is the room less their
length. -/
theorem writePieces_eq (room : Nat) (pieces : List String) :
    writePieces room pieces =
      if (String.join pieces).utf8ByteSize ≤ room then
        some (room - (String.join pieces).utf8ByteSize)
      else none := by
  induction pieces generalizing room with
  | nil => simp [writePieces]
  | cons piece rest ih =>
    rw [writePieces, ih, String.join_cons, String.utf8ByteSize_append]
    by_cases hpiece : piece.utf8ByteSize ≤ room
    · rw [if_pos hpiece]
      by_cases hrest : (String.join rest).utf8ByteSize ≤ room - piece.utf8ByteSize
      · rw [if_pos hrest, if_pos (by omega), Nat.sub_sub]
      · rw [if_neg hrest, if_neg (by omega)]
    · rw [if_neg hpiece, if_neg (by omega)]

/-- A text may be handed over in one piece. -/
theorem writePieces_join (room : Nat) (pieces : List String) :
    writePieces room pieces = writePieces room [String.join pieces] := by
  rw [writePieces_eq, writePieces_eq]
  simp

/-! ### Sections -/

/-- The text of all sections. -/
def sectionText (r : Record) : String := String.join (sections r)

/-- The last section has nothing but its heading, and an empty line behind it. -/
theorem sectionText_ends (r : Record) :
    ∃ front, sectionText r = front ++ "\nDecompiled output:\n\n" := by
  rw [sectionText, sections, String.join_append]
  exact ⟨_, congrArg _ rfl⟩

theorem text_eq (r : Record) :
    text r = r.listing.map fun listing => sectionText r ++ listing := by
  have hjoin : ∀ listing, String.join (sections r ++ [listing]) = sectionText r ++ listing := by
    intro listing
    rw [String.join_append, sectionText]
    simp
  rw [text]
  exact congrArg (fun f => r.listing.map f) (funext hjoin)

/-! ### Writing a report -/

variable {r : Record} {room : Nat}

/-- If the sections do not fit, no listing is made. -/
theorem write_of_lt (h : room < (sectionText r).utf8ByteSize) :
    write room r = .error .writerFull := by
  have hfull : writePieces room (sections r) = none := by
    rw [writePieces_eq]
    exact if_neg (Nat.not_le.mpr h)
  rw [write, hfull]

theorem writePieces_sections_of_le (h : (sectionText r).utf8ByteSize ≤ room) :
    writePieces room (sections r) = some (room - (sectionText r).utf8ByteSize) := by
  rw [writePieces_eq]
  exact if_pos h

/-- If the sections fit, an error of the listing comes through. -/
theorem write_of_listing_error {e : ListingError}
    (hfits : (sectionText r).utf8ByteSize ≤ room) (h : r.listing = .error e) :
    write room r = .error (.listing e) := by
  rw [write, writePieces_sections_of_le hfits, h]

/-- If there is a listing, it has to fit behind the sections. -/
theorem write_of_listing_ok {listing : String} (h : r.listing = .ok listing) :
    write room r =
      if (sectionText r).utf8ByteSize + listing.utf8ByteSize ≤ room then
        .ok (room - ((sectionText r).utf8ByteSize + listing.utf8ByteSize))
      else .error .writerFull := by
  rcases Nat.lt_or_ge room (sectionText r).utf8ByteSize with hlt | hfits
  · rw [write_of_lt hlt, if_neg (by omega)]
  · rw [write, writePieces_sections_of_le hfits, h]
    dsimp only
    rw [writePieces]
    by_cases hlisting : listing.utf8ByteSize ≤ room - (sectionText r).utf8ByteSize
    · rw [if_pos hlisting, if_pos (by omega), writePieces, Nat.sub_sub]
    · rw [if_neg hlisting, if_neg (by omega)]

theorem write_eq_ok_iff {left : Nat} :
    write room r = .ok left ↔
      ∃ listing, r.listing = .ok listing ∧
        (sectionText r).utf8ByteSize + listing.utf8ByteSize ≤ room ∧
        left = room - ((sectionText r).utf8ByteSize + listing.utf8ByteSize) := by
  cases hlisting : r.listing with
  | error e =>
    rcases Nat.lt_or_ge room (sectionText r).utf8ByteSize with hlt | hfits
    · simp [write_of_lt hlt]
    · simp [write_of_listing_error hfits hlisting]
  | ok listing =>
    rw [write_of_listing_ok hlisting]
    by_cases hfits : (sectionText r).utf8ByteSize + listing.utf8ByteSize ≤ room
    · simp [hfits, eq_comm]
    · simp [hfits]

theorem write_eq_writerFull_iff :
    write room r = .error .writerFull ↔
      room < (sectionText r).utf8ByteSize ∨
        ∃ listing, r.listing = .ok listing ∧
          room < (sectionText r).utf8ByteSize + listing.utf8ByteSize := by
  cases hlisting : r.listing with
  | error e =>
    rcases Nat.lt_or_ge room (sectionText r).utf8ByteSize with hlt | hfits
    · simp [write_of_lt hlt, hlt]
    · simp [write_of_listing_error hfits hlisting, hfits]
  | ok listing =>
    rw [write_of_listing_ok hlisting]
    by_cases hfits : (sectionText r).utf8ByteSize + listing.utf8ByteSize ≤ room
    · have hsections : (sectionText r).utf8ByteSize ≤ room := by omega
      simp [hfits, hsections]
    · simp [hfits, Nat.not_le.mp hfits]

theorem write_eq_listing_iff {e : ListingError} :
    write room r = .error (.listing e) ↔
      (sectionText r).utf8ByteSize ≤ room ∧ r.listing = .error e := by
  cases hlisting : r.listing with
  | error e' =>
    rcases Nat.lt_or_ge room (sectionText r).utf8ByteSize with hlt | hfits
    · simp [write_of_lt hlt, Nat.not_le.mpr hlt]
    · simp [write_of_listing_error hfits hlisting, hfits]
  | ok listing =>
    rw [write_of_listing_ok hlisting]
    by_cases hfits : (sectionText r).utf8ByteSize + listing.utf8ByteSize ≤ room
    · simp [hfits]
    · simp [hfits]

/-- **A report agrees with the listing and with every writer.** The report of a record is the text
of its sections, which ends with the heading of the listing and an empty line, and then the listing;
it fails as the listing does, and only then. A writer with room for so many bytes takes it exactly
if there is a listing and both texts fit, and has the rest of its room left. Otherwise the writer is
full, inside the sections or inside the listing, or the sections fit and the error is that of the
listing. In which pieces a text is handed over makes no difference. -/
theorem text_and_write_iff (r : Record) :
    (∃ front, sectionText r = front ++ "\nDecompiled output:\n\n") ∧
    (∀ report, text r = .ok report ↔
      ∃ listing, r.listing = .ok listing ∧ report = sectionText r ++ listing) ∧
    (∀ e, text r = .error e ↔ r.listing = .error e) ∧
    ∀ room,
      (∀ pieces, writePieces room pieces = writePieces room [String.join pieces]) ∧
      (∀ left, write room r = .ok left ↔
        ∃ listing, r.listing = .ok listing ∧
          (sectionText r).utf8ByteSize + listing.utf8ByteSize ≤ room ∧
          left = room - ((sectionText r).utf8ByteSize + listing.utf8ByteSize)) ∧
      (write room r = .error .writerFull ↔
        room < (sectionText r).utf8ByteSize ∨
          ∃ listing, r.listing = .ok listing ∧
            room < (sectionText r).utf8ByteSize + listing.utf8ByteSize) ∧
      ∀ e, write room r = .error (.listing e) ↔
        (sectionText r).utf8ByteSize ≤ room ∧ r.listing = .error e := by
  refine ⟨sectionText_ends r, fun report => ?_, fun e => ?_, fun room =>
    ⟨writePieces_join room, fun _ => write_eq_ok_iff, write_eq_writerFull_iff,
      fun _ => write_eq_listing_iff⟩⟩
  · rw [text_eq]
    cases r.listing with
    | error e => simp [Except.map]
    | ok listing => simp [Except.map, eq_comm]
  · rw [text_eq]
    cases r.listing with
    | error e' => simp [Except.map]
    | ok listing => simp [Except.map]

end AssetPack.Script.Report
