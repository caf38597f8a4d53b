import Sybil.Lib.Machine

/-!
# Prices, quantities and notionals

The fixed-point numbers of `matching-engine`: prices are nanodollars, quantities
are thousandths of a share, and the notional of a fill is
`price * qty / SHARE_SCALE`, rounded down or up.

Each notional comes in two versions.  The checked one fails when a result leaves
its width.  The unchecked one casts, so it drops the bits above the width; the
difference shows only above `2 ^ 64`, and it is kept because the resolution replay
of the verifier uses the unchecked one.
-/

namespace Sybil.Engine

variable {price : ℕ}

/-- Market identifier (`u32`). -/
abbrev MarketId := ℕ

/-- Nanodollars (`u64`). -/
abbrev Nanos := ℕ

/-- Share units (`u64`). -/
abbrev Qty := ℕ

/-- One dollar in nanos. -/
def nanosPerDollar : ℕ := 1000000000

/-- Quantity units in a share. -/
def shareScale : ℕ := 1000

/-- Largest publicly admissible order quantity. -/
def maxOrderQty : ℕ := 1000000 * shareScale

/-- Sentinel for unused market slots, `u32::MAX`. -/
def MarketId.none : MarketId := 4294967295

/-- Categorical direction of an order with respect to its primary market. -/
inductive OrderDirection where
  | buyYes
  | sellYes
  | buyNo
  | sellNo
  deriving DecidableEq, Repr

/-- Stable one-byte encoding of a direction. -/
def OrderDirection.toByte : OrderDirection → ℕ
  | buyYes => 0
  | sellYes => 1
  | buyNo => 2
  | sellNo => 3

/-! ## Notionals -/

/-- Floor of `price * qty / SHARE_SCALE`, cast to 64 bits. -/
def notionalNanos (price : Nanos) (qty : Qty) : Nanos := (price * qty / shareScale) % 2 ^ 64

/-- Checked floor of `price * qty / SHARE_SCALE`; the product is an `i128`. -/
def checkedNotionalNanos (price : Nanos) (qty : Qty) : Option Nanos :=
  if price * qty < 2 ^ 127 then checkedU64 (price * qty / shareScale) else none

/-- Checked floor of `price * qty / SHARE_SCALE` as an `i64`. -/
def checkedNotionalI64 (price : Nanos) (qty : Qty) : Option ℤ :=
  (checkedNotionalNanos price qty).bind i64OfU64

/-- Checked ceiling of `price * qty / SHARE_SCALE`. -/
def checkedNotionalNanosCeil (price : Nanos) (qty : Qty) : Option Nanos :=
  if price * qty + (shareScale - 1) < 2 ^ 127 then
    checkedU64 ((price * qty + (shareScale - 1)) / shareScale)
  else none

/-- Checked ceiling of `price * qty / SHARE_SCALE` as an `i64`. -/
def checkedNotionalCeilI64 (price : Nanos) (qty : Qty) : Option ℤ :=
  (checkedNotionalNanosCeil price qty).bind i64OfU64

/-- Checked signed floor of `price * qty / SHARE_SCALE`. -/
def checkedSignedNotionalNanos (price : Nanos) (qty : ℤ) : Option ℤ :=
  (checkedNotionalI64 price qty.natAbs).bind fun abs =>
    if qty < 0 then checkedI64 (-abs) else some abs

/-- Checked signed floor of `price_delta * qty / SHARE_SCALE`. -/
def checkedSignedPriceDeltaNotional (priceDelta : ℤ) (qty : Qty) : Option ℤ :=
  (checkedNotionalI64 priceDelta.natAbs qty).bind fun abs =>
    if priceDelta < 0 then checkedI64 (-abs) else some abs

/-- Exact `ceil(value * numer / denom)`, cast to 64 bits.  The source panics on `denom = 0`; its
callers pass a positive one. -/
def ceilMulRatio (value numer denom : ℕ) : ℕ := ((value * numer + (denom - 1)) / denom) % 2 ^ 64

theorem checkedNotionalNanos_eq_some {qty n : ℕ} (h : checkedNotionalNanos price qty = some n) :
    n = price * qty / shareScale ∧ n < 2 ^ 64 := by
  unfold checkedNotionalNanos at h
  split_ifs at h
  obtain ⟨hlt, rfl⟩ := checkedU64_eq_some_iff.mp h
  exact ⟨rfl, hlt⟩

theorem checkedNotionalI64_eq_some {qty : ℕ} {c : ℤ} (h : checkedNotionalI64 price qty = some c) :
    c = (price * qty / shareScale : ℕ) ∧ c < 2 ^ 63 := by
  obtain ⟨n, hn, hc⟩ := Option.bind_eq_some_iff.mp h
  obtain ⟨rfl, -⟩ := checkedNotionalNanos_eq_some hn
  obtain ⟨hlt, rfl⟩ := i64OfU64_eq_some_iff.mp hc
  exact ⟨rfl, by exact_mod_cast hlt⟩

theorem checkedSignedNotionalNanos_of_nonneg {qty c : ℤ} (hq : 0 ≤ qty)
    (h : checkedSignedNotionalNanos price qty = some c) :
    c = (price * qty.natAbs / shareScale : ℕ) := by
  obtain ⟨abs, habs, hc⟩ := Option.bind_eq_some_iff.mp h
  rw [if_neg (not_lt.mpr hq)] at hc
  rw [← Option.some.inj hc]
  exact (checkedNotionalI64_eq_some habs).1

end Sybil.Engine
