-- The laws of frames: a frame that shows its own end can be told from what
-- follows it, and a text of such frames is a text of no other items.
import Licensecc.Codec.Lines
import Mathlib.Data.Nat.Digits.Lemmas

namespace Licensecc.Codec

variable {α β : Type}

/-- The frame of an item shows where it ends. -/
structure SelfDelimiting (frame : α → List β) : Prop where
  ne_nil : ∀ a, frame a ≠ []
  cancel : ∀ {a b r s}, frame a ++ r = frame b ++ s → a = b ∧ r = s

/-- The text of some frames is the text of no other items. -/
theorem SelfDelimiting.flatMap_injective {frame : α → List β} (hframe : SelfDelimiting frame)
    {as bs : List α} (h : as.flatMap frame = bs.flatMap frame) : as = bs := by
  induction as generalizing bs with
  | nil =>
    cases bs with
    | nil => rfl
    | cons b bs => simp [hframe.ne_nil] at h
  | cons a as ih =>
    cases bs with
    | nil => simp [hframe.ne_nil] at h
    | cons b bs =>
      simp only [List.flatMap_cons] at h
      obtain ⟨rfl, hrest⟩ := hframe.cancel h
      rw [ih hrest]

/-- A block whose size stands before it, up to a mark, shows where it ends. -/
theorem block_cancel [DecidableEq β] {mark : β} {size : Nat → List β}
    (hsize : Function.Injective size) (hmark : ∀ n, mark ∉ size n) {a b r s : List β}
    (h : size a.length ++ mark :: (a ++ r) = size b.length ++ mark :: (b ++ s)) :
    a = b ∧ r = s := by
  have ha : takeLine mark (size a.length ++ mark :: (a ++ r)) = some (size a.length, a ++ r) :=
    takeLine_eq_some.mpr ⟨hmark a.length, rfl⟩
  have hb : takeLine mark (size b.length ++ mark :: (b ++ s)) = some (size b.length, b ++ s) :=
    takeLine_eq_some.mpr ⟨hmark b.length, rfl⟩
  rw [h, hb] at ha
  obtain ⟨hlen, hrest⟩ := Prod.mk.inj (Option.some.inj ha)
  exact List.append_inj hrest.symm (hsize hlen.symm)

/-! ## Sizes -/

/-- The digits of a number, the high one first, in a field of some width. -/
def paddedDigits (base width n : Nat) : List Nat :=
  let ds := (Nat.digits base n).reverse
  List.replicate (width - ds.length) 0 ++ ds

theorem ofDigits_paddedDigits (base width n : Nat) :
    Nat.ofDigits base (paddedDigits base width n).reverse = n := by
  unfold paddedDigits
  simp [Nat.ofDigits_append, Nat.ofDigits_digits, Nat.ofDigits_replicate_zero]

theorem paddedDigits_injective (base width : Nat) :
    Function.Injective (paddedDigits base width) := by
  intro m n h
  rw [← ofDigits_paddedDigits base width m, h, ofDigits_paddedDigits]

theorem paddedDigits_lt {base : Nat} (hbase : 1 < base) {width n : Nat} :
    ∀ d ∈ paddedDigits base width n, d < base := by
  intro d hd
  rcases List.mem_append.mp hd with hd | hd
  · have := List.eq_of_mem_replicate hd
    omega
  · exact Nat.digits_lt_base hbase (List.mem_reverse.mp hd)

end Licensecc.Codec
