import DesignDoc.Document.Width
import DesignDoc.Proofs.Text.Lines
import Mathlib.Algebra.Order.Group.Unbundled.Int
import Mathlib.Data.Nat.Digits.Defs

/-! Which types have a width, and which one. The bracket groups of a text and the form of a range
are given by rules here, without the functions that look for them: a type has a width if it has one
group and this group is a range whose bounds are short enough to be read. It is the distance of the
bounds plus one, in either direction. -/

namespace DesignDoc.Text

/-! ### Digits -/

/-- The digits of each script are ten characters in a row. -/
theorem isDigit_iff {c : Char} :
    isDigit c = true ↔ ∃ z ∈ digitZeros, ∃ d ≤ 9, c.toNat = z + d := by
  rw [isDigit, digitValue?, Option.isSome_map, List.find?_isSome]
  constructor
  · rintro ⟨z, hz, h⟩
    rw [Bool.and_eq_true, decide_eq_true_eq, decide_eq_true_eq] at h
    exact ⟨z, hz, c.toNat - z, by omega, by omega⟩
  · rintro ⟨z, hz, d, hd, hc⟩
    exact ⟨z, hz, by simp [hc, hd]⟩

theorem isBlank_of_isDigit {c : Char} (h : isDigit c = true) : isBlank c = false := by
  have hall : ∀ z ∈ digitZeros, ∀ d ≤ 9, isBlank (Char.ofNat (z + d)) = false := by
    decide +kernel
  obtain ⟨z, hz, d, hd, hc⟩ := isDigit_iff.mp h
  rw [← Char.ofNat_toNat c, hc]
  exact hall z hz d hd

theorem numberOf_eq_ofDigits (digits : List Char) :
    numberOf digits = Nat.ofDigits 10 (digits.reverse.map fun c => (digitValue? c).getD 0) := by
  induction digits using List.reverseRecOn with
  | nil => rfl
  | append_singleton digits c ih =>
    rw [numberOf_concat, ih, List.reverse_concat, List.map_cons, Nat.ofDigits_cons, Nat.add_comm]

theorem digitValue?_of_isDigit {c : Char} (h : c.isDigit = true) :
    digitValue? c = some (c.toNat - '0'.toNat) := by
  have h : 0x30 ≤ c.toNat ∧ c.toNat ≤ 0x39 := Char.isDigit_iff_toNat.mp h
  rw [digitValue?, digitZeros, List.find?_cons_of_pos (by simpa using h)]
  rfl

/-- The decimal digits of a number write it. -/
theorem numberOf_toDigits (n : Nat) : numberOf (Nat.toDigits 10 n) = n := by
  have hfold {digits : List Char} (h : ∀ c ∈ digits, c.isDigit = true) (k : Nat) :
      digits.foldl (fun n c => 10 * n + (digitValue? c).getD 0) k =
        Nat.ofDigitChars 10 digits k := by
    induction digits generalizing k with
    | nil => rfl
    | cons c digits ih =>
      rw [List.forall_mem_cons] at h
      rw [List.foldl_cons, ih h.2, digitValue?_of_isDigit h.1]
      rfl
  rw [numberOf, hfold fun c => Nat.isDigit_of_mem_toDigits (by decide) (by decide),
    Nat.ofDigitChars_ten_toDigits]

end DesignDoc.Text

namespace DesignDoc.Document

open DesignDoc.Text

namespace Width

/-! ### Bracket groups -/

/-- The contents of the bracket groups of a text, from left to right. A group reaches from the first
opening bracket to the next closing one, and where no closing bracket follows an opening one there
is no group. -/
inductive Grouped : List Char → List (List Char) → Prop
  | none {a b : List Char} (ha : '[' ∉ a) (hb : ']' ∉ b) : Grouped (a ++ b) []
  | next {a g s : List Char} {gs : List (List Char)} (ha : '[' ∉ a) (hg : ']' ∉ g)
    (h : Grouped s gs) : Grouped (a ++ '[' :: (g ++ ']' :: s)) (g :: gs)

theorem groups_none_append {a : List Char} (ha : '[' ∉ a) (s : List Char) :
    groups none (a ++ s) = groups none s := by
  induction a with
  | nil => rfl
  | cons c a ih =>
    rw [List.mem_cons, not_or] at ha
    simp [groups, Ne.symm ha.1, ih ha.2]

/-- A group stays open up to a closing bracket. -/
theorem groups_some_append {w : List Char} (h : ']' ∉ w) (g s : List Char) :
    groups (some g) (w ++ s) = groups (some (w.reverse ++ g)) s := by
  induction w generalizing g with
  | nil => rfl
  | cons c w ih =>
    rw [List.mem_cons, not_or] at h
    simp [groups, Ne.symm h.1, ih h.2]

/-- Where no bracket closes, no group ends. -/
theorem groups_of_notMem {s : List Char} (h : ']' ∉ s) (g : Option (List Char)) :
    groups g s = [] := by
  induction s generalizing g with
  | nil => cases g <;> rfl
  | cons c s ih =>
    rw [List.mem_cons, not_or] at h
    cases g <;> simp [groups, Ne.symm h.1, ih h.2]

theorem groups_of_grouped {s : List Char} {gs : List (List Char)} (h : Grouped s gs) :
    groups none s = gs := by
  induction h with
  | none ha hb => rw [groups_none_append ha, groups_of_notMem hb]
  | next ha hg _ ih =>
    rw [groups_none_append ha, groups, if_pos rfl, groups_some_append hg, groups, if_pos rfl, ih]
    simp

/-- Every text has its groups. -/
theorem exists_grouped (s : List Char) : ∃ gs, Grouped s gs := by
  by_cases hopen : '[' ∈ s
  · obtain ⟨a, b, rfl, ha⟩ := List.eq_append_cons_of_mem hopen
    by_cases hclose : ']' ∈ b
    · obtain ⟨g, r, rfl, hg⟩ := List.eq_append_cons_of_mem hclose
      obtain ⟨gs, h⟩ := exists_grouped r
      exact ⟨g :: gs, .next ha hg h⟩
    · exact ⟨[], .none ha (by simp [hclose])⟩
  · exact ⟨[], by simpa using Grouped.none hopen (b := []) (by simp)⟩
termination_by s.length
decreasing_by grind

theorem groups_eq_iff {s : List Char} {gs : List (List Char)} :
    groups none s = gs ↔ Grouped s gs := by
  refine ⟨?_, groups_of_grouped⟩
  rintro rfl
  obtain ⟨gs, h⟩ := exists_grouped s
  rwa [groups_of_grouped h]

/-! ### Numerals -/

namespace Numeral

/-- What stands before the digits. -/
def sign (negative : Bool) : List Char := if negative then ['-'] else []

def chars (n : Numeral) : List Char := sign n.negative ++ n.digits

/-- There are digits, and nothing else. -/
structure Proper (n : Numeral) : Prop where
  ne_nil : n.digits ≠ []
  isDigit : ∀ c ∈ n.digits, isDigit c = true

/-- The number that digits write in decimal positions, the last one for the units. -/
def magnitude (n : Numeral) : Nat :=
  Nat.ofDigits 10 (n.digits.reverse.map fun c => (digitValue? c).getD 0)

def value (n : Numeral) : Int := if n.negative then -n.magnitude else n.magnitude

/-- A numeral that is short enough to be read. -/
def Fits (n : Numeral) : Prop := n.digits.length ≤ digitLimit

instance (n : Numeral) : Decidable n.Fits := inferInstanceAs (Decidable (_ ≤ _))

theorem magnitude_eq_numberOf (n : Numeral) : n.magnitude = numberOf n.digits :=
  (numberOf_eq_ofDigits n.digits).symm

theorem integerOf_eq (n : Numeral) :
    integerOf n.negative n.digits =
      if n.Fits then .ok n.value else .error ⟨n.digits.length⟩ := by
  by_cases h : n.Fits
  · rw [integerOf, if_pos h, if_neg (Nat.not_lt.mpr h), value, magnitude_eq_numberOf]
  · rw [integerOf, if_neg h, if_pos (Nat.not_le.mp h)]

/-- The decimal numeral of an integer. -/
def ofInt (m : Int) : Numeral := ⟨decide (m < 0), Nat.toDigits 10 m.natAbs⟩

theorem proper_ofInt (m : Int) : (ofInt m).Proper where
  ne_nil := Nat.toDigits_ne_nil
  isDigit c hc := by
    have h := Nat.isDigit_of_mem_toDigits (by decide) (by decide) hc
    rw [Text.isDigit, digitValue?_of_isDigit h]
    rfl

theorem value_ofInt (m : Int) : (ofInt m).value = m := by
  rw [value, magnitude_eq_numberOf, ofInt, numberOf_toDigits]
  simp only [decide_eq_true_eq]
  split <;> omega

theorem chars_ofInt (m : Int) : (ofInt m).chars = (toString m).toList := by
  have h : toString m = m.repr := rfl
  rw [h, Int.repr_eq_if, chars, ofInt]
  by_cases hm : 0 ≤ m
  · have habs : m.toNat = m.natAbs := by omega
    simp [sign, hm, not_lt.mpr hm, habs, Nat.toList_repr]
  · have habs : (-m).toNat = m.natAbs := by omega
    simp [sign, hm, not_le.mp hm, habs, Nat.toList_repr]

end Numeral

/-- Digits are read up to the first character that is none. -/
theorem span_digits {digits r : List Char} (hd : ∀ c ∈ digits, isDigit c = true)
    (hr : ∀ c ∈ r.head?, isDigit c = false) :
    (digits ++ r).takeWhile isDigit = digits ∧ (digits ++ r).dropWhile isDigit = r := by
  rw [List.takeWhile_append_of_pos hd, List.dropWhile_append_of_pos hd]
  cases r with
  | nil => simp
  | cons c r => simp [hr c rfl]

/-- A sign is read, and the digits after it. -/
theorem numeral?_sign_append {negative : Bool} {t : List Char}
    (h : negative = false → t.head? ≠ some '-') :
    numeral? (Numeral.sign negative ++ t) =
      if (t.takeWhile isDigit).isEmpty then none
      else some (⟨negative, t.takeWhile isDigit⟩, t.dropWhile isDigit) := by
  cases negative with
  | true => rfl
  | false =>
    have hsign : (t.head? == some '-') = false := beq_eq_false_iff_ne.mpr (h rfl)
    simp only [numeral?, Numeral.sign, Bool.false_eq_true, if_false, List.nil_append, hsign]

theorem exists_sign_append (s : List Char) :
    ∃ negative t, s = Numeral.sign negative ++ t ∧ (negative = false → t.head? ≠ some '-') := by
  by_cases h : s.head? = some '-'
  · obtain ⟨t, rfl⟩ := List.head?_eq_some_iff.mp h
    exact ⟨true, t, rfl, by simp⟩
  · exact ⟨false, s, rfl, fun _ => h⟩

theorem numeral?_eq_some_iff {s r : List Char} {n : Numeral} :
    numeral? s = some (n, r) ↔
      n.Proper ∧ s = n.chars ++ r ∧ ∀ c ∈ r.head?, isDigit c = false := by
  constructor
  · intro h
    obtain ⟨negative, t, rfl, hsign⟩ := exists_sign_append s
    rw [numeral?_sign_append hsign] at h
    split at h
    · cases h
    · rename_i hne
      obtain ⟨rfl, rfl⟩ := Prod.mk.inj (Option.some.inj h)
      refine ⟨⟨?_, fun c hc => List.mem_takeWhile_imp hc⟩, ?_, fun c hc => ?_⟩
      · simpa using hne
      · rw [Numeral.chars, List.append_assoc, List.takeWhile_append_dropWhile]
      · have hr := List.head?_dropWhile_not isDigit t
        rwa [hc] at hr
  · rintro ⟨hn, rfl, hr⟩
    obtain ⟨htake, hdrop⟩ := span_digits hn.isDigit hr
    have hsign : (n.digits ++ r).head? ≠ some '-' := by
      rw [List.head?_append_of_ne_nil _ hn.ne_nil]
      intro h
      have hminus := hn.isDigit '-' (List.mem_of_head? h)
      revert hminus
      decide
    rw [Numeral.chars, List.append_assoc, numeral?_sign_append fun _ => hsign, htake, hdrop,
      if_neg (by simpa using hn.ne_nil)]

/-! ### Ranges -/

/-- A text is a range: two numerals with a colon between them, and blanks around each. -/
inductive RangeText : List Char → Numeral → Numeral → Prop
  | mk {u v w x : List Char} {m l : Numeral} (hu : ∀ c ∈ u, isBlank c = true)
    (hv : ∀ c ∈ v, isBlank c = true) (hw : ∀ c ∈ w, isBlank c = true)
    (hx : ∀ c ∈ x, isBlank c = true) (hm : m.Proper) (hl : l.Proper) :
    RangeText (u ++ (m.chars ++ (v ++ ':' :: (w ++ (l.chars ++ x))))) m l

theorem RangeText.tight {m l : Numeral} (hm : m.Proper) (hl : l.Proper) :
    RangeText (m.chars ++ ':' :: l.chars) m l := by
  simpa using RangeText.mk (u := []) (v := []) (w := []) (x := []) (by simp) (by simp) (by simp)
    (by simp) hm hl

/-- A numeral begins with no blank. -/
theorem trimStart_chars_append {n : Numeral} (hn : n.Proper) (r : List Char) :
    trimStart (n.chars ++ r) = n.chars ++ r := by
  refine trimStart_eq_self fun c hc => ?_
  obtain ⟨negative, digits⟩ := n
  cases negative with
  | true =>
    obtain rfl := Option.some.inj hc
    decide
  | false =>
    have hhead : (digits ++ r).head? = some c := hc
    rw [List.head?_append_of_ne_nil _ hn.ne_nil] at hhead
    exact isBlank_of_isDigit (hn.isDigit c (List.mem_of_head? hhead))

/-- Blanks end the digits before them. -/
theorem isDigit_head?_blanks_append {v : List Char} (hv : ∀ c ∈ v, isBlank c = true)
    {r : List Char} (hr : ∀ c ∈ r.head?, isDigit c = false) :
    ∀ c ∈ (v ++ r).head?, isDigit c = false := by
  cases v with
  | nil => exact hr
  | cons d v =>
    intro c hc
    obtain rfl := Option.some.inj hc
    by_contra hd
    have hblank := isBlank_of_isDigit (eq_true_of_ne_false hd)
    rw [hv d List.mem_cons_self] at hblank
    cases hblank

theorem bounds?_eq_some_iff {g : List Char} {m l : Numeral} :
    bounds? g = some (m, l) ↔ RangeText g m l := by
  constructor
  · intro h
    obtain ⟨⟨m', s⟩, hm, h⟩ := Option.bind_eq_some_iff.mp h
    dsimp only at h
    split at h
    · rename_i r hr
      obtain ⟨⟨l', t⟩, hl, h⟩ := Option.bind_eq_some_iff.mp h
      dsimp only at h
      split at h
      · rename_i ht
        obtain ⟨rfl, rfl⟩ := Prod.mk.inj (Option.some.inj h)
        obtain ⟨hm, hg, -⟩ := numeral?_eq_some_iff.mp hm
        obtain ⟨hl, hs, -⟩ := numeral?_eq_some_iff.mp hl
        -- what is cut away before each part and at the end
        obtain ⟨u, hu, hgu⟩ := exists_blanks_append_trimStart g
        obtain ⟨v, hv, hsv⟩ := exists_blanks_append_trimStart s
        obtain ⟨w, hw, hrw⟩ := exists_blanks_append_trimStart r
        obtain ⟨x, hx, htx⟩ := exists_blanks_append_trimStart t
        rw [ht, List.append_nil] at htx
        rw [hgu, hg, hsv, hr, hrw, hs, htx]
        exact .mk hu hv hw hx hm hl
      · cases h
    · cases h
  · rintro ⟨hu, hv, hw, hx, hm, hl⟩
    rename_i u v w x
    have hcolon (r : List Char) : ∀ c ∈ (':' :: r).head?, isDigit c = false := by
      simp only [List.head?_cons, Option.mem_some_iff, forall_eq']
      decide
    have hmsb := numeral?_eq_some_iff.mpr
      ⟨hm, rfl, isDigit_head?_blanks_append hv (hcolon (w ++ (l.chars ++ x)))⟩
    have hlsb : numeral? (l.chars ++ x) = some (l, x) := numeral?_eq_some_iff.mpr
      ⟨hl, rfl, by simpa using isDigit_head?_blanks_append hx (r := []) (by simp)⟩
    have hend : trimStart x = [] := by simpa using trimStart_blanks_append hx []
    simp [bounds?, trimStart_blanks_append hu, trimStart_chars_append hm, hmsb,
      trimStart_blanks_append hv, trimStart_cons_of_not_blank (c := ':') (by decide),
      trimStart_blanks_append hw, trimStart_chars_append hl, hlsb, hend]

/-- The first bound that is too long is reported. -/
theorem between_eq (m l : Numeral) :
    between m l =
      if m.Fits then
        if l.Fits then .ok (|m.value - l.value| + 1) else .error ⟨l.digits.length⟩
      else .error ⟨m.digits.length⟩ := by
  rw [between, m.integerOf_eq, l.integerOf_eq]
  by_cases hm : m.Fits <;> by_cases hl : l.Fits <;>
    simp [hm, hl, bind, Except.bind, pure, Except.pure]

/-- A type with one bracket group, which is a range. -/
def IsRange (type : List Char) (m l : Numeral) : Prop := ∃ g, Grouped type [g] ∧ RangeText g m l

theorem RangeText.notMem {g : List Char} {m l : Numeral} (h : RangeText g m l) : ']' ∉ g := by
  have hblank {u : List Char} (hu : ∀ c ∈ u, isBlank c = true) : ']' ∉ u := fun hm =>
    absurd (hu _ hm) (by decide)
  have hchars {n : Numeral} (hn : n.Proper) : ']' ∉ n.chars := by
    have hdigits : ']' ∉ n.digits := fun hm => absurd (hn.isDigit _ hm) (by decide)
    cases hs : n.negative <;> simp [Numeral.chars, Numeral.sign, hs, hdigits]
  obtain ⟨hu, hv, hw, hx, hm, hl⟩ := h
  simp [hblank hu, hblank hv, hblank hw, hblank hx, hchars hm, hchars hl]

/-- A range in brackets is a range, whatever stands around it without a bracket. -/
theorem isRange_append {g : List Char} {m l : Numeral} (h : RangeText g m l)
    {before after : List Char} (hb : '[' ∉ before) (ha : '[' ∉ after) :
    IsRange (before ++ '[' :: (g ++ ']' :: after)) m l := by
  have hrest : Grouped after [] := by simpa using Grouped.none ha (b := []) (by simp)
  exact ⟨g, .next hb h.notMem hrest, h⟩

end Width

open Width

section Exact

variable {type : List Char}

theorem packedWidth_of_isRange {m l : Numeral} (h : IsRange type m l) :
    packedWidth type =
      if m.Fits then
        if l.Fits then .ok (some (|m.value - l.value| + 1)) else .error ⟨l.digits.length⟩
      else .error ⟨m.digits.length⟩ := by
  obtain ⟨g, hg, hr⟩ := h
  have h : packedWidth type = (between m l).map some := by
    simp only [packedWidth, groups_eq_iff.mpr hg, bounds?_eq_some_iff.mpr hr]
  rw [h, between_eq]
  split_ifs <;> rfl

theorem packedWidth_of_not_isRange (h : ¬ ∃ m l, IsRange type m l) :
    packedWidth type = .ok none := by
  unfold packedWidth
  split
  · rename_i g hg
    split
    · rename_i m l hr
      exact absurd ⟨m, l, g, groups_eq_iff.mp hg, bounds?_eq_some_iff.mp hr⟩ h
    · rfl
  · rfl

theorem packedWidth_eq_some_iff {w : Int} :
    packedWidth type = .ok (some w) ↔
      ∃ m l, IsRange type m l ∧ m.Fits ∧ l.Fits ∧ w = |m.value - l.value| + 1 := by
  constructor
  · intro h
    by_cases hr : ∃ m l, IsRange type m l
    · obtain ⟨m, l, hr⟩ := hr
      rw [packedWidth_of_isRange hr] at h
      split_ifs at h with hm hl
      exact ⟨m, l, hr, hm, hl, (Option.some.inj (Except.ok.inj h)).symm⟩
    · rw [packedWidth_of_not_isRange hr] at h
      cases h
  · rintro ⟨m, l, hr, hm, hl, rfl⟩
    rw [packedWidth_of_isRange hr, if_pos hm, if_pos hl]

theorem packedWidth_eq_error_iff {e : Overlong} :
    packedWidth type = .error e ↔
      ∃ m l, IsRange type m l ∧
        ((¬ m.Fits ∧ e = ⟨m.digits.length⟩) ∨ (m.Fits ∧ ¬ l.Fits ∧ e = ⟨l.digits.length⟩)) := by
  constructor
  · intro h
    by_cases hr : ∃ m l, IsRange type m l
    · obtain ⟨m, l, hr⟩ := hr
      rw [packedWidth_of_isRange hr] at h
      split_ifs at h with hm hl
      · exact ⟨m, l, hr, .inr ⟨hm, hl, (Except.error.inj h).symm⟩⟩
      · exact ⟨m, l, hr, .inl ⟨hm, (Except.error.inj h).symm⟩⟩
    · rw [packedWidth_of_not_isRange hr] at h
      cases h
  · rintro ⟨m, l, hr, ⟨hm, rfl⟩ | ⟨hm, hl, rfl⟩⟩
    · rw [packedWidth_of_isRange hr, if_neg hm]
    · rw [packedWidth_of_isRange hr, if_pos hm, if_neg hl]

theorem packedWidth_eq_none_iff :
    packedWidth type = .ok none ↔ ¬ ∃ m l, IsRange type m l := by
  refine ⟨?_, packedWidth_of_not_isRange⟩
  rintro h ⟨m, l, hr⟩
  rw [packedWidth_of_isRange hr] at h
  split_ifs at h
  cases h

end Exact

/-! ### Ranges of integers -/

/-- The range from one integer to another as it is usually written. -/
def rangeOf (m l : Int) : String := "[" ++ toString m ++ ":" ++ toString l ++ "]"

theorem isRange_rangeOf (m l : Int) {before after : String} (hb : '[' ∉ before.toList)
    (ha : '[' ∉ after.toList) :
    IsRange (before ++ rangeOf m l ++ after).toList (.ofInt m) (.ofInt l) := by
  have htight := RangeText.tight (Numeral.proper_ofInt m) (Numeral.proper_ofInt l)
  simpa [rangeOf, Numeral.chars_ofInt] using isRange_append htight hb ha

/-- The width of a type is that of its only range, if it has one and if its bounds can be read.
Integers make a range, in either direction. -/
theorem packedWidth_exact :
    (∀ type : String,
      (∀ w, packedWidth? (some type) = .ok (some w) ↔
        ∃ m l, IsRange type.toList m l ∧ m.Fits ∧ l.Fits ∧ w = |m.value - l.value| + 1) ∧
      (∀ w, packedWidth? (some type) = .ok (some w) → 1 ≤ w) ∧
      (∀ e, packedWidth? (some type) = .error e ↔
        ∃ m l, IsRange type.toList m l ∧
          ((¬ m.Fits ∧ e = ⟨m.digits.length⟩) ∨ (m.Fits ∧ ¬ l.Fits ∧ e = ⟨l.digits.length⟩))) ∧
      (packedWidth? (some type) = .ok none ↔ ¬ ∃ m l, IsRange type.toList m l)) ∧
    ∀ (m l : Int) (before after : String), '[' ∉ before.toList → '[' ∉ after.toList →
      (Nat.toDigits 10 m.natAbs).length ≤ digitLimit →
      (Nat.toDigits 10 l.natAbs).length ≤ digitLimit →
      packedWidth? (some (before ++ rangeOf m l ++ after)) = .ok (some (|m - l| + 1)) ∧
        packedWidth? (some (before ++ rangeOf l m ++ after)) = .ok (some (|m - l| + 1)) := by
  refine ⟨fun type => ⟨fun w => packedWidth_eq_some_iff, fun w hw => ?_,
    fun e => packedWidth_eq_error_iff, packedWidth_eq_none_iff⟩, ?_⟩
  · obtain ⟨m, l, -, -, -, rfl⟩ := packedWidth_eq_some_iff.mp hw
    have := abs_nonneg (m.value - l.value)
    omega
  · intro m l before after hb ha hm hl
    refine ⟨packedWidth_eq_some_iff.mpr ⟨_, _, isRange_rangeOf m l hb ha, hm, hl, ?_⟩,
      packedWidth_eq_some_iff.mpr ⟨_, _, isRange_rangeOf l m hb ha, hl, hm, ?_⟩⟩
    · rw [Numeral.value_ofInt, Numeral.value_ofInt]
    · rw [Numeral.value_ofInt, Numeral.value_ofInt, abs_sub_comm]

/-- Integers with brackets left and right that belong to no group, and bounds of two scripts. -/
theorem packedWidth_exact_samples :
    "logic] " ++ rangeOf (-3) 12 ++ " q]" = "logic] [-3:12] q]" ∧
    packedWidth? (some ("logic] " ++ rangeOf (-3) 12 ++ " q]")) = .ok (some 16) ∧
    packedWidth? (some ("logic] " ++ rangeOf 12 (-3) ++ " q]")) = .ok (some 16) ∧
    packedWidth? (some "bit [ -0\t:\u0667]") = .ok (some 8) ∧
    (∃ m l, IsRange "bit [ -0\t:\u0667]".toList m l ∧ m.Fits ∧ l.Fits ∧
      8 = |m.value - l.value| + 1) ∧
    ¬ ∃ m l, IsRange "bit [3:0][1:0]".toList m l := by
  have hscripts : packedWidth? (some "bit [ -0\t:\u0667]") = .ok (some 8) := by decide +kernel
  obtain ⟨hforth, hback⟩ := packedWidth_exact.2 (-3) 12 "logic] " " q]" (by decide) (by decide)
    (by decide) (by decide)
  exact ⟨by decide, hforth, hback, hscripts, ((packedWidth_exact.1 _).1 8).mp hscripts,
    (packedWidth_exact.1 _).2.2.2.mp (by decide +kernel)⟩

end DesignDoc.Document
