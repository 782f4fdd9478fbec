import Mathlib.Tactic.Ring
import Harvest.Data.Double.Shortest

/-!
# Decimals of doubles

The shortest decimal of a positive double has digits other than zero: seventeen of them always suffice for
one that lies in the interval of the double. So no double is written as a row of zeros.

The search for the shortest decimal tries one digit, then two, and so on. For each number of digits there is
a grid of decimals, and the point that is nearest to the double is taken if it lies in the interval of
numbers that are read as that double. Three things are needed. The search for the position of the point
stops where it should (`reaches_decimalPoint`). A grid that is finer than the interval is wide has a point
in it (`gridPoint?_ne_none`). And with seventeen digits the grid is that fine, by the width of an interval
in units of its last place (`interval_fine`).

All numbers are quotients of naturals here, with the denominator multiplied out, so that the inequalities
are those of natural numbers.
-/

namespace Harvest.Double

/-! ## The power of ten above a quotient

The search begins at an estimate and moves by one until the quotient lies between two powers of ten. -/

/-- Whether a quotient is not below a power of ten. -/
def reaches (num den : Nat) (q : Int) : Bool :=
  if 0 ≤ q then Nat.pow 10 q.toNat * den ≤ num else den ≤ num * Nat.pow 10 (-q).toNat

section Point

variable {num den : Nat} {p q : Int}

theorem reaches_of_nonneg (hq : 0 ≤ q) : reaches num den q = true ↔ 10 ^ q.toNat * den ≤ num := by
  rw [reaches, if_pos hq]
  exact decide_eq_true_iff

theorem reaches_of_neg (hq : q < 0) : reaches num den q = true ↔ den ≤ num * 10 ^ (-q).toNat := by
  rw [reaches, if_neg (by omega)]
  exact decide_eq_true_iff

theorem decimalPoint_succ (fuel : Nat) (p : Int) :
    decimalPoint num den (fuel + 1) p = if reaches num den p then decimalPoint num den fuel (p + 1)
      else if reaches num den (p - 1) then p else decimalPoint num den fuel (p - 1) := rfl

/-- A quotient that is not below a power of ten is not below a smaller one. -/
theorem reaches_mono (h : reaches num den p = true) (hq : q ≤ p) : reaches num den q = true := by
  have hpow {m n : Nat} (h : m ≤ n) : 10 ^ m ≤ 10 ^ n := Nat.pow_le_pow_right (by decide) h
  rcases Int.lt_or_le q 0 with hq0 | hq0
  · rw [reaches_of_neg hq0]
    rcases Int.lt_or_le p 0 with hp0 | hp0
    · exact ((reaches_of_neg hp0).mp h).trans (Nat.mul_le_mul_left num (hpow (by omega)))
    · have hden : den ≤ num :=
        (Nat.le_mul_of_pos_left den (Nat.pow_pos (by decide))).trans ((reaches_of_nonneg hp0).mp h)
      exact hden.trans (Nat.le_mul_of_pos_right num (Nat.pow_pos (by decide)))
  · rw [reaches_of_nonneg hq0]
    exact (Nat.mul_le_mul_right den (hpow (by omega))).trans ((reaches_of_nonneg (hq0.trans hq)).mp h)

/-- The search for the power of ten does not go past the first one that the quotient reaches. -/
theorem reaches_decimalPoint {fuel : Nat} (h : reaches num den (p - 1 - fuel) = true) :
    reaches num den (decimalPoint num den fuel p - 1) = true := by
  induction fuel generalizing p with
  | zero => exact reaches_mono h (by rw [decimalPoint]; omega)
  | succ fuel ih =>
      rw [decimalPoint_succ]
      split
      next hp => exact ih (reaches_mono hp (by omega))
      next =>
        split
        next hp => exact hp
        next => exact ih (reaches_mono h (by omega))

/-- The search does not move further than it may. -/
theorem decimalPoint_near (num den fuel : Nat) (p : Int) :
    p - fuel ≤ decimalPoint num den fuel p ∧ decimalPoint num den fuel p ≤ p + fuel := by
  induction fuel generalizing p with
  | zero =>
      rw [decimalPoint]
      omega
  | succ fuel ih =>
      have hup := ih (p + 1)
      have hdown := ih (p - 1)
      rw [decimalPoint_succ]
      split
      next => omega
      next => split <;> omega

end Point

/-! ## Points of a grid

The two points next to a number, and which of them is taken. -/

namespace Interval

variable (i : Interval) (unit : Int)

/-- Whether so many steps of a grid lie in an interval. -/
def holds (n : Nat) : Bool :=
  if 0 ≤ unit then i.contains (n * Nat.pow 10 unit.toNat) 1 else i.contains n (Nat.pow 10 (-unit).toNat)

/-- The value of an interval in steps of a grid: a quotient. -/
def steps : Nat × Nat :=
  if 0 ≤ unit then (i.value, i.den * Nat.pow 10 unit.toNat) else (i.value * Nat.pow 10 (-unit).toNat, i.den)

end Interval

section Grid

variable {i : Interval} {p : Int} {count n : Nat}

/-- Of the two points next to a quotient, the nearer one is taken of those that lie inside. -/
theorem nearer_cases (inside : Nat → Bool) (num den : Nat) :
    let found := match inside (num / den), inside (num / den + 1) with
      | false, false => none
      | true, false => some (num / den)
      | false, true => some (num / den + 1)
      | true, true =>
        if 2 * (num % den) < den then some (num / den)
        else if den < 2 * (num % den) then some (num / den + 1)
        else if num / den % 2 = 0 then some (num / den) else some (num / den + 1)
    (found = none ∧ inside (num / den) = false ∧ inside (num / den + 1) = false)
      ∨ ∃ m, found = some m ∧ inside m = true := by
  dsimp only
  split
  next hq hq' => exact .inl ⟨rfl, hq, hq'⟩
  next hq _ => exact .inr ⟨_, rfl, hq⟩
  next _ hq => exact .inr ⟨_, rfl, hq⟩
  next hq hq' =>
    refine .inr ?_
    split
    next => exact ⟨_, rfl, hq⟩
    split
    next => exact ⟨_, rfl, hq'⟩
    split
    next => exact ⟨_, rfl, hq⟩
    next => exact ⟨_, rfl, hq'⟩

/-! ### Finding a point

The two points next to a quotient are tried. If the interval is wider than a step of the grid, one of them is
inside. -/

/-- A point of the grid is found if one of the two next to the value lies in the interval, and then it does so
itself. -/
theorem gridPoint?_cases (i : Interval) (p : Int) (count : Nat) :
    (gridPoint? i p count = none
        ∧ i.holds (p - count) ((i.steps (p - count)).1 / (i.steps (p - count)).2) = false
        ∧ i.holds (p - count) ((i.steps (p - count)).1 / (i.steps (p - count)).2 + 1) = false)
      ∨ ∃ m, gridPoint? i p count = some m ∧ i.holds (p - count) m = true := by
  unfold gridPoint? Interval.holds Interval.steps
  by_cases h : 0 ≤ p - count
  · simp only [if_pos h]
    exact nearer_cases (fun n => i.contains (n * Nat.pow 10 (p - count).toNat) 1) _ _
  · simp only [if_neg h]
    exact nearer_cases (fun n => i.contains n (Nat.pow 10 (-(p - count)).toNat)) _ _

/-- An interval above zero does not hold zero. -/
theorem Interval.not_holds_zero (hlow : 0 < i.low) (unit : Int) : i.holds unit 0 = false := by
  have hcontains {den : Nat} (hden : 0 < den) : i.contains 0 den = false := by
    have hpos : 0 < i.low * den := Nat.mul_pos hlow hden
    unfold Interval.contains
    rw [Nat.zero_mul]
    split
    · rw [Bool.and_eq_false_iff]
      exact .inl (decide_eq_false (Nat.not_le.mpr hpos))
    · rw [Bool.and_eq_false_iff]
      exact .inl (decide_eq_false (Nat.not_lt.mpr (Nat.zero_le _)))
  unfold Interval.holds
  split
  · rw [Nat.zero_mul]
    exact hcontains (by decide)
  · exact hcontains (Nat.pow_pos (by decide))

/-- An interval above zero gives no zero. -/
theorem gridPoint?_ne_zero (hlow : 0 < i.low) : gridPoint? i p count ≠ some 0 := by
  rcases gridPoint?_cases i p count with ⟨hnone, -⟩ | ⟨n, hn, hholds⟩
  · rw [hnone]
    exact nofun
  · rw [hn]
    rintro ⟨⟩
    rw [Interval.not_holds_zero hlow] at hholds
    cases hholds

/-- What is not in an interval lies below or above it, with the ends counted as the interval counts them. -/
theorem Interval.contains_eq_false_iff {num den : Nat} : i.contains num den = false ↔
    if i.closed = true then num * i.den < i.low * den ∨ i.high * den < num * i.den
    else num * i.den ≤ i.low * den ∨ i.high * den ≤ num * i.den := by
  unfold Interval.contains
  split <;> simp only [Bool.and_eq_false_iff, decide_eq_false_iff_not, not_le, not_lt]

/-- A grid that is fine enough has a point in an interval. -/
theorem gridPoint?_ne_none (hunit : p < count) (hden : 0 < i.den) (hlow : i.low < i.value)
    (hhigh : i.value < i.high) (hfine : i.den < (i.high - i.low) * 10 ^ (count - p).toNat) : gridPoint? i p count ≠ none := by
  intro hnone
  rcases gridPoint?_cases i p count with ⟨-, hq, hq'⟩ | ⟨n, hn, -⟩
  · unfold Interval.holds Interval.steps at hq hq'
    rw [if_neg (by omega), if_neg (by omega)] at hq hq'
    obtain ⟨k, hk⟩ : ∃ k, (-(p - count)).toNat = k := ⟨_, rfl⟩
    have hkp : (count - p).toNat = k := by omega
    rw [hk] at hq hq'
    rw [hkp, Nat.sub_mul] at hfine
    have hpow : 0 < 10 ^ k := Nat.pow_pos (by decide)
    have hbelow : i.low * 10 ^ k < i.value * 10 ^ k := Nat.mul_lt_mul_of_pos_right hlow hpow
    have habove : i.value * 10 ^ k < i.high * 10 ^ k := Nat.mul_lt_mul_of_pos_right hhigh hpow
    have hdiv := Nat.div_add_mod (i.value * 10 ^ k) i.den
    have hmod := Nat.mod_lt (i.value * 10 ^ k) hden
    rw [Nat.mul_comm] at hdiv
    have hnext : (i.value * 10 ^ k / i.den + 1) * i.den = i.value * 10 ^ k / i.den * i.den + i.den :=
      Nat.succ_mul _ _
    -- both neighbours of the value are outside, so the interval is narrower than the grid
    rw [Interval.contains_eq_false_iff] at hq hq'
    rw [show Nat.pow 10 k = 10 ^ k from rfl] at hq hq'
    rw [hnext] at hq'
    generalize i.low * 10 ^ k = low at *
    generalize i.high * 10 ^ k = high at *
    generalize i.value * 10 ^ k / i.den * i.den = below at *
    generalize i.value * 10 ^ k = value at *
    by_cases hclosed : i.closed = true
    · rw [if_pos hclosed] at hq hq'
      omega
    · rw [if_neg hclosed] at hq hq'
      omega
  · rw [hnone] at hn
    cases hn

/-- The digits that are found at last are no zero. -/
theorem shortestFrom_ne_zero (hlow : 0 < i.low) {fuel : Nat} (h : gridPoint? i p (count + fuel) ≠ none) :
    (shortestFrom i p fuel count).1 ≠ 0 := by
  induction fuel generalizing count with
  | zero =>
      rw [shortestFrom]
      obtain ⟨n, hn⟩ := Option.ne_none_iff_exists'.mp h
      rw [Nat.add_zero] at hn
      rw [hn]
      rintro rfl
      exact gridPoint?_ne_zero hlow hn
  | succ fuel ih =>
      rw [shortestFrom]
      split
      next n hn =>
        rintro rfl
        exact gridPoint?_ne_zero hlow hn
      next => exact ih (by rwa [Nat.add_right_comm, Nat.add_assoc])

/-- To drop zeros at the end of a number makes no zero of it. -/
theorem dropZeros_ne_zero {fuel : Nat} (h : n ≠ 0) : dropZeros fuel n ≠ 0 := by
  induction fuel generalizing n with
  | zero => exact h
  | succ fuel ih =>
      rw [dropZeros]
      split
      next hn => exact ih (by omega)
      next => exact h

end Grid

/-! ## Seventeen digits

The bound for doubles, from the width of their intervals. -/

section Interval

variable {m : Nat} {e p : Int}

/-- The interval of a positive double lies above zero, with the double inside. -/
theorem interval_pos (hm : 0 < m) (e : Int) :
    0 < (interval m e).low ∧ (interval m e).low < (interval m e).value
      ∧ (interval m e).value < (interval m e).high ∧ 0 < (interval m e).den := by
  have hscale : 0 < (if 0 ≤ e - 2 then Nat.pow 2 (e - 2).toNat else 1) := by
    split
    · exact Nat.pow_pos (by decide)
    · exact Nat.one_pos
  have hstep : (if (m == Nat.pow 2 52 && decide (minExponent < e)) = true then 1 else 2) ≤ 2
      ∧ 0 < if (m == Nat.pow 2 52 && decide (minExponent < e)) = true then 1 else 2 := by
    split <;> omega
  unfold interval
  dsimp only
  refine ⟨Nat.mul_pos (by omega) hscale, Nat.mul_lt_mul_of_pos_right (by omega) hscale,
    Nat.mul_lt_mul_of_pos_right (by omega) hscale, ?_⟩
  split
  · exact Nat.one_pos
  · exact Nat.pow_pos (by decide)

/-- The width of an interval: four quarters, or three where the mantissa is a power of two. -/
theorem interval_width (m : Nat) (hm : 0 < m) (e : Int) :
    ∃ scale quarters, 0 < scale ∧ (interval m e).value = 4 * m * scale
      ∧ (interval m e).high - (interval m e).low = quarters * scale
      ∧ (quarters = 4 ∨ quarters = 3 ∧ m = 2 ^ 52) := by
  refine ⟨if 0 ≤ e - 2 then Nat.pow 2 (e - 2).toNat else 1, _, ?_, rfl, (Nat.sub_mul ..).symm, ?_⟩
  · split
    · exact Nat.pow_pos (by decide)
    · exact Nat.one_pos
  · split
    next h =>
      obtain ⟨hm', -⟩ := Bool.and_eq_true_iff.mp h
      exact .inr ⟨by omega, eq_of_beq hm'⟩
    next => exact .inl (by omega)

/-- With seventeen digits a grid is fine enough. -/
theorem interval_fine (hm : 0 < m) (hformat : m < 2 ^ 53) (hp : 1 ≤ p) (hp17 : p < 17)
    (h : reaches (interval m e).value (interval m e).den (p - 1) = true) :
    (interval m e).den < ((interval m e).high - (interval m e).low) * 10 ^ ((17 : Nat) - p).toNat := by
  obtain ⟨scale, quarters, hscale, hvalue, hwidth, hquarters⟩ := interval_width m hm e
  rw [reaches_of_nonneg (by omega), hvalue] at h
  rw [hwidth]
  obtain ⟨k, hk⟩ : ∃ k, (p - 1).toNat = k := ⟨_, rfl⟩
  have hk' : ((17 : Nat) - p).toNat = 16 - k := by omega
  rw [hk] at h
  rw [hk']
  have hsplit : 10 ^ 16 = 10 ^ k * 10 ^ (16 - k) := by rw [← Nat.pow_add, Nat.add_sub_cancel' (by omega)]
  refine Nat.lt_of_mul_lt_mul_left (a := 10 ^ k) ?_
  have hbound : 4 * m < quarters * 10 ^ 16 := by omega
  calc 10 ^ k * (interval m e).den ≤ 4 * m * scale := h
    _ < quarters * 10 ^ 16 * scale := Nat.mul_lt_mul_of_pos_right hbound hscale
    _ = 10 ^ k * (quarters * scale * 10 ^ (16 - k)) := by rw [hsplit]; ring

/-- The estimate of the power of ten is at most nine too high. -/
theorem reaches_estimate (hm : 0 < m) (he : e < 2)
    (hlow : -26 ≤ (m.log2 : Int) + e) (hhigh : (m.log2 : Int) + e ≤ 53) :
    reaches (interval m e).value (interval m e).den (((m.log2 : Int) + e) * 30103 / 100000 - 9) = true := by
  obtain ⟨l, hl⟩ : ∃ l, m.log2 = l := ⟨_, rfl⟩
  obtain ⟨k, hk⟩ : ∃ k, (-(e - 2)).toNat = k := ⟨_, rfl⟩
  have hvalue : (interval m e).value = 4 * m := by
    unfold interval
    dsimp only
    rw [if_neg (by omega), Nat.mul_one]
  have hden : (interval m e).den = 2 ^ k := by
    unfold interval
    dsimp only
    rw [if_neg (by omega), hk]
    rfl
  have hbits : 2 ^ (l + 2) ≤ 4 * m := by
    have hlog : 2 ^ l ≤ m := hl ▸ Nat.log2_self_le (Nat.ne_of_gt hm)
    rw [Nat.pow_add]
    omega
  have hpow {a b : Nat} (h : a ≤ b) : 2 ^ a ≤ 2 ^ b := Nat.pow_le_pow_right (by decide) h
  have hten {a b : Nat} (h : a ≤ b) : 10 ^ a ≤ 10 ^ b := Nat.pow_le_pow_right (by decide) h
  rw [hvalue, hden, hl]
  rw [hl] at hlow hhigh
  obtain ⟨q, hq⟩ : ∃ q, ((l : Int) + e) * 30103 / 100000 - 9 = q := ⟨_, rfl⟩
  rw [hq]
  -- a negative place scales the value up, any other the denominator
  rcases Int.lt_or_le q 0 with hq0 | hq0
  · rw [reaches_of_neg hq0]
    have hk26 : 2 ^ k ≤ 2 ^ (l + 2) * 2 ^ 26 := by
      rw [← Nat.pow_add]
      exact hpow (by omega)
    -- below one the factor 10^9 pays for the 26 binary places, from one on no factor is needed
    rcases Int.lt_or_le ((l : Int) + e) 0 with hneg | hpos
    · calc 2 ^ k ≤ 2 ^ (l + 2) * 2 ^ 26 := hk26
        _ ≤ 4 * m * 10 ^ 9 := Nat.mul_le_mul hbits (by decide)
        _ ≤ 4 * m * 10 ^ (-q).toNat := Nat.mul_le_mul_left _ (hten (by omega))
    · calc 2 ^ k ≤ 2 ^ (l + 2) := hpow (by omega)
        _ ≤ 4 * m := hbits
        _ ≤ 4 * m * 10 ^ (-q).toNat := Nat.le_mul_of_pos_right _ (Nat.pow_pos (by decide))
  · rw [reaches_of_nonneg hq0]
    calc 10 ^ q.toNat * 2 ^ k ≤ 10 ^ 6 * 2 ^ k := Nat.mul_le_mul_right _ (hten (by omega))
      _ ≤ 2 ^ 30 * 2 ^ k := Nat.mul_le_mul_right _ (by decide)
      _ = 2 ^ (30 + k) := (Nat.pow_add ..).symm
      _ ≤ 2 ^ (l + 2) := hpow (by omega)
      _ ≤ 4 * m := hbits

end Interval

/-- **The shortest decimal of a double is not zero** where it is written without an exponent. -/
theorem shortest_ne_zero {m : Nat} (hm : 0 < m) (hformat : m < 2 ^ 53) (e : Int)
    (hlow : 2 ≤ (shortest m e).point) (hhigh : (shortest m e).point ≤ 16) : (shortest m e).digits ≠ 0 := by
  obtain ⟨p, hp⟩ : ∃ p, decimalPoint (interval m e).value (interval m e).den 8
    (((m.log2 : Int) + e) * 30103 / 100000) = p := ⟨_, rfl⟩
  obtain ⟨hlowpos, hbelow, habove, hden⟩ := interval_pos hm e
  have hpoint : (shortest m e).point = p ∨ (shortest m e).point = p + 1 := by
    unfold shortest
    dsimp only
    rw [hp]
    split <;> simp
  -- seventeen places are finer than the interval is wide, so one of their grid points lies in it
  have hfine : (interval m e).den < ((interval m e).high - (interval m e).low) * 10 ^ ((17 : Nat) - p).toNat := by
    rcases Int.lt_or_le e 2 with he | he
    · have hnear := decimalPoint_near (interval m e).value (interval m e).den 8
        (((m.log2 : Int) + e) * 30103 / 100000)
      have hlog : m.log2 < 53 := (Nat.log2_lt (Nat.ne_of_gt hm)).mpr hformat
      rw [hp] at hnear
      refine interval_fine hm hformat (by omega) (by omega) ?_
      rw [← hp]
      exact reaches_decimalPoint (reaches_mono (reaches_estimate hm he (by omega) (by omega)) (by omega))
    · have hone : (interval m e).den = 1 := by
        unfold interval
        exact if_pos (by omega)
      have hpow : 10 ^ 1 ≤ 10 ^ ((17 : Nat) - p).toNat := Nat.pow_le_pow_right (by decide) (by omega)
      have hwide : 1 ≤ (interval m e).high - (interval m e).low := by omega
      rw [hone]
      calc 1 < 1 * 10 ^ 1 := by decide
        _ ≤ _ := Nat.mul_le_mul hwide hpow
  have hgrid : gridPoint? (interval m e) p (1 + 16) ≠ none :=
    gridPoint?_ne_none (by omega) hden hbelow habove hfine
  unfold shortest
  dsimp only
  rw [hp]
  exact dropZeros_ne_zero (shortestFrom_ne_zero hlowpos hgrid)

/-! ## The format

What is read or computed as a double has a mantissa of 53 bits. -/

/-- Whether a number has a mantissa of the format. -/
def InFormat : Double → Prop
  | .finite _ m _ => m < 2 ^ 53
  | _ => True

theorem zero_inFormat (s : Bool) : (zero s).InFormat := by
  show 0 < 2 ^ 53
  decide

/-- A quotient is rounded to the format. -/
theorem ofRatio_inFormat (s : Bool) (num den : Nat) : (ofRatio s num den).InFormat := by
  unfold ofRatio
  dsimp only
  split
  next => exact zero_inFormat s
  split
  next hm =>
    split
    next => exact hm
    next => trivial
  split
  next =>
    show Nat.pow 2 52 < 2 ^ 53
    decide
  next => trivial

/-- A decimal is read as a number of the format. -/
theorem ofDecimal_inFormat (s : Bool) (digits : Nat) (e : Int) : (ofDecimal s digits e).InFormat := by
  unfold ofDecimal
  dsimp only
  split
  next => exact zero_inFormat s
  split
  next => trivial
  split
  next => exact zero_inFormat s
  split
  next => exact ofRatio_inFormat ..
  next => exact ofRatio_inFormat ..

end Harvest.Double
