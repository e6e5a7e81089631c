import Mathlib.Data.Nat.Digits.Lemmas

/-! Numerals in a text: the digits of a number, the digits that a text begins with, and the number
that digits denote.  The text of a number, before anything that does not begin with a digit, is read
back as the number. -/

namespace StateProxy.ProofKit

/-- The value of a digit of the given radix. -/
def toDigit (radix : Nat) (c : Char) : Option Nat :=
  let value :=
    if '0' ≤ c ∧ c ≤ '9' then some (c.toNat - '0'.toNat)
    else if 'a' ≤ c ∧ c ≤ 'z' then some (c.toNat - 'a'.toNat + 10)
    else if 'A' ≤ c ∧ c ≤ 'Z' then some (c.toNat - 'A'.toNat + 10)
    else none
  value.filter (· < radix)

/-- The number that digits denote, the most significant first. -/
def ofDigits (radix : Nat) (digits : List Nat) : Nat :=
  digits.foldl (fun n digit => n * radix + digit) 0

/-- The digits of a number, the most significant first. -/
def digits (radix n : Nat) : List Nat :=
  if n = 0 then [0] else (Nat.digits radix n).reverse

section Reading

variable {α : Type}

/-- The digits that a text begins with, and the rest of the text. -/
def readDigits (toDigit : α → Option Nat) : List α → List Nat × List α
  | [] => ([], [])
  | c :: text =>
    match toDigit c with
    | none => ([], c :: text)
    | some digit =>
      let (digits, rest) := readDigits toDigit text
      (digit :: digits, rest)

/-- The text does not begin with a digit. -/
def Stops (toDigit : α → Option Nat) (text : List α) : Prop :=
  ∀ c ∈ text.head?, toDigit c = none

theorem readDigits_stops {toDigit : α → Option Nat} {text : List α} (h : Stops toDigit text) :
    readDigits toDigit text = ([], text) := by
  cases text with
  | nil => rfl
  | cons c text =>
    have hc := h c rfl
    simp only [readDigits, hc]

/-- Digits before a text that does not begin with one are read back. -/
theorem readDigits_map {toDigit : α → Option Nat} {fromDigit : Nat → α} {ds : List Nat}
    (hds : ∀ d ∈ ds, toDigit (fromDigit d) = some d) {text : List α} (h : Stops toDigit text) :
    readDigits toDigit (ds.map fromDigit ++ text) = (ds, text) := by
  induction ds with
  | nil => exact readDigits_stops h
  | cons d ds ih =>
    have hd := hds d List.mem_cons_self
    have hrest := ih fun d hmem => hds d (List.mem_cons_of_mem _ hmem)
    simp only [List.map_cons, List.cons_append, readDigits, hd, hrest]

end Reading

theorem digits_ne_nil (radix n : Nat) : digits radix n ≠ [] := by
  unfold digits
  split
  · simp
  · simpa [Nat.digits_ne_nil_iff_ne_zero]

theorem digits_lt {radix : Nat} (hradix : 1 < radix) {n d : Nat} (h : d ∈ digits radix n) :
    d < radix := by
  unfold digits at h
  split at h
  · cases List.mem_singleton.mp h
    omega
  · exact Nat.digits_lt_base hradix (List.mem_reverse.mp h)

theorem ofDigits_digits (radix n : Nat) : ofDigits radix (digits radix n) = n := by
  unfold ofDigits digits
  split
  · rename_i hn
    simp [hn]
  · have hstep : (fun d n => n * radix + d) = fun (d n : Nat) => (d : Nat) + radix * n := by
      funext d n
      ring
    calc (Nat.digits radix n).reverse.foldl (fun n d => n * radix + d) 0
        = (Nat.digits radix n).foldr (fun d n => n * radix + d) 0 := List.foldl_reverse
      _ = Nat.ofDigits radix (Nat.digits radix n) := by
        rw [hstep, Nat.ofDigits_eq_foldr]
        rfl
      _ = n := Nat.ofDigits_digits radix n

theorem length_digits_le {radix : Nat} (hradix : 1 < radix) {n k : Nat} (hk : 0 < k)
    (h : n < radix ^ k) : (digits radix n).length ≤ k := by
  unfold digits
  split
  · exact hk
  · rw [List.length_reverse]
    exact (Nat.digits_length_le_iff hradix n).mpr h

/-- Only the numeral of zero begins with a zero. -/
theorem head_digits {radix n : Nat} (h : (digits radix n).head? = some 0) :
    (digits radix n).length = 1 := by
  unfold digits at h ⊢
  split at h
  · rename_i hn
    rw [if_pos hn]
    rfl
  · rename_i hn
    rw [List.head?_reverse, List.getLast?_eq_some_getLast (Nat.digits_ne_nil_iff_ne_zero.mpr hn)] at h
    exact absurd (Option.some.inj h) (Nat.getLast_digit_ne_zero radix hn)

theorem stops_cons {radix : Nat} {c : Char} (h : toDigit radix c = none) (text : List Char) :
    Stops (toDigit radix) (c :: text) := by
  rintro c' ⟨⟩
  exact h

theorem toDigit_of_radix_le {radix radix' : Nat} (h : radix ≤ radix') {c : Char}
    (hc : toDigit radix' c = none) : toDigit radix c = none := by
  unfold toDigit at hc ⊢
  rw [Option.filter_eq_none_iff] at hc ⊢
  intro d hd
  have := hc d hd
  simp only [decide_eq_true_eq] at this ⊢
  omega

theorem Stops.of_radix_le {radix radix' : Nat} (h : radix ≤ radix') {text : List Char}
    (htext : Stops (toDigit radix') text) : Stops (toDigit radix) text :=
  fun c hc => toDigit_of_radix_le h (htext c hc)

/-- The text of a number. -/
def numeral (radix n : Nat) : List Char :=
  (digits radix n).map Nat.digitChar

theorem toDigit_digitChar {radix d : Nat} (hradix : radix ≤ 16) (h : d < radix) :
    toDigit radix d.digitChar = some d := by
  have hvalue : ∀ d < 16, toDigit 16 d.digitChar = some d := by decide
  have hd := hvalue d (by omega)
  unfold toDigit at hd ⊢
  obtain ⟨hvalue, -⟩ := Option.filter_eq_some_iff.mp hd
  rw [hvalue]
  simpa using h

/-- The text of a number, before anything that does not begin with a digit, is read back. -/
theorem readDigits_numeral {radix : Nat} (hradix : 1 < radix) (hradix' : radix ≤ 16) (n : Nat)
    {text : List Char} (h : Stops (toDigit radix) text) :
    readDigits (toDigit radix) (numeral radix n ++ text) = (digits radix n, text) :=
  readDigits_map (fun _ hmem => toDigit_digitChar hradix' (digits_lt hradix hmem)) h

end StateProxy.ProofKit
