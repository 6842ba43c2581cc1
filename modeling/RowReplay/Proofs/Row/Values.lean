import RowReplay.Proofs.Json.RoundTrip
import RowReplay.Row.Value

/-!
The JSON form of a data value, which carries no tag: every value comes back from its text with its
kind, and what is read as a value is written as it was. Whole numbers beyond 64 signed bits become
the nearest floating ones.
-/
namespace RowReplay

open Json

variable {i : Int} {j : Json} {v : Value}

namespace Binary64

/-- No finite number is nearer to an integer. -/
def IsNearest (x : Binary64) (i : Int) : Prop :=
  ∃ m, x = .finite (decide (i < 0)) m ∧ m.IsNearest (i.natAbs * Magnitude.unitsOfOne) 1

theorem isNearest_ofInt (h : (ofInt i).isFinite = true) : (ofInt i).IsNearest i := by
  cases hm : Magnitude.ofNat? i.natAbs with
  | none =>
    rw [ofInt, hm] at h
    contradiction
  | some m =>
    refine ⟨m, by rw [ofInt, hm]; rfl, ?_⟩
    exact Magnitude.isNearest_of_ofUnits? Nat.one_pos hm

/-- Every whole number of 64 bits has a floating one near it. -/
theorem isFinite_ofInt (h : IsWhole64 i) : (ofInt i).isFinite = true := by
  have hmin : Int64.minValue.toInt = -(2 ^ 63 : Nat) := by decide
  have hsize : UInt64.size = 2 ^ 64 := rfl
  obtain ⟨hlow, hhigh⟩ := h
  obtain ⟨k, hone, hk⟩ : ∃ k, Magnitude.unitsOfOne = 2 ^ k ∧ k = 1074 :=
    ⟨_, Magnitude.unitsOfOne_eq, rfl⟩
  obtain ⟨top, htop⟩ := Magnitude.exists_units_mul (n := 1) (k := 64 + k) (by decide) (by omega)
  have hle : i.natAbs * Magnitude.unitsOfOne ≤ top.units * 1 := by
    rw [htop, hone, Nat.pow_add, Nat.mul_one, Nat.one_mul]
    exact Nat.mul_le_mul_right _ (by omega)
  obtain ⟨m, hm, -⟩ := Magnitude.exists_ofUnits? Nat.one_pos hle
  unfold ofInt Magnitude.ofNat? Magnitude.ofQuotient?
  rw [hm]
  rfl

/-- A decimal without an exponent is read as its integer is. -/
theorem ofDecimal_eq_ofInt (hi : i ≠ 0)
    (h : (ofDecimal (decide (i < 0)) i.natAbs 0).isFinite = true) :
    ofDecimal (decide (i < 0)) i.natAbs 0 = ofInt i := by
  have hne : i.natAbs ≠ 0 := Int.natAbs_ne_zero.mpr hi
  rcases lt_or_ge decimalRange (leadingPlace i.natAbs 0) with hhigh | hhigh
  · rw [ofDecimal_of_high _ hne hhigh] at h
    contradiction
  · have hlow : -decimalRange ≤ leadingPlace i.natAbs 0 := by
      unfold decimalRange leadingPlace
      omega
    rw [ofDecimal_eq_ofQuotient? _ hne hhigh hlow (a := 0) (b := 0) (by omega), Nat.pow_zero,
      Nat.mul_one]
    rfl

end Binary64

namespace Json

/-- A whole number that does not have 64 bits is read as the nearest floating one, if at all. -/
theorem exists_of_parse?_toString (hi : ¬IsWhole64 i) (h : parse? (toString i) = some j) :
    ∃ x : Binary64, j = .float x ∧ x.IsNearest i := by
  have hne : i ≠ 0 := by
    rintro rfl
    exact hi ⟨by decide, by decide⟩
  have hnumber := value?_sign (wholeNumeral i.natAbs) (decide (i < 0))
    (2 * (toString i).toList.length + 1) []
  rw [number?_wholeNumeral _ _ Numeral.ends_nil, if_neg ((fits_iff_isWhole64 i).not.mpr hi),
    List.append_nil, ← toString_int_eq] at hnumber
  unfold parse? at h
  dsimp only at h
  rw [hnumber] at h
  by_cases hfinite : (Binary64.ofDecimal (decide (i < 0)) i.natAbs 0).isFinite = true
  · rw [if_pos hfinite] at h
    obtain rfl := Option.some.inj h
    have heq := Binary64.ofDecimal_eq_ofInt hne hfinite
    exact ⟨_, rfl, heq ▸ Binary64.isNearest_ofInt (heq ▸ hfinite)⟩
  · rw [if_neg hfinite] at h
    contradiction

end Json

namespace Value

/-- What a value becomes when it is written as JSON text and read back. -/
def settled : Value → Value
  | .float x => if x.isFinite then .float x else .null
  | .timestamp t => .text (t.rfc3339 "Z")
  | v => v

theorem byteOfJson?_eq_some_iff {b : UInt8} : byteOfJson? j = some b ↔ j = .int b.toNat := by
  constructor
  · intro h
    unfold byteOfJson? at h
    split at h
    · split at h
      · next i hi =>
        obtain rfl := Option.some.inj h
        rw [UInt8.toNat_ofNat']
        congr 1
        omega
      · contradiction
    · contradiction
  · rintro rfl
    have hlt := b.toNat_lt
    unfold byteOfJson?
    dsimp only
    rw [if_pos (by omega), Int.toNat_natCast, UInt8.ofNat_toNat]

/-- A list is read as bytes if its items are just these bytes. -/
theorem mapM_byteOfJson?_eq_some_iff {items : List Json} {data : List UInt8} :
    items.mapM byteOfJson? = some data ↔ items = data.map fun b => .int b.toNat := by
  induction items generalizing data with
  | nil => cases data <;> simp
  | cons item items ih =>
    cases data with
    | nil => simp [List.mapM_cons, Option.bind_eq_some_iff]
    | cons b data => simp [List.mapM_cons, Option.bind_eq_some_iff, byteOfJson?_eq_some_iff, ih]

theorem int64_bounds (i : Int64) :
    Int64.minValue.toInt ≤ i.toInt ∧ i.toInt ≤ Int64.maxValue.toInt :=
  ⟨i.minValue_le_toInt, i.toInt_le⟩

theorem toJson_float (x : Binary64) :
    (Value.float x).toJson = if x.isFinite then .float x else .null := rfl

theorem ofJson?_int (i : Int) : ofJson? (.int i) =
    if Int64.minValue.toInt ≤ i ∧ i ≤ Int64.maxValue.toInt then some (.int (Int64.ofInt i))
    else some (.float (.ofInt i)) := rfl

theorem ofJson?_arr (items : List Json) :
    ofJson? (.arr items) = (items.mapM byteOfJson?).map .bytes := rfl

/-- The JSON form of a value can be written. -/
theorem writable_toJson (v : Value) : v.toJson.Writable := by
  have hmax : Int64.maxValue.toInt < UInt64.size := by decide
  have hmin : Int64.minValue.toInt ≤ 0 := by decide
  cases v with
  | null => exact .null
  | bool b => exact .bool b
  | int i => exact .int ⟨(int64_bounds i).1, Int.lt_of_le_of_lt (int64_bounds i).2 hmax⟩
  | float x =>
    rw [toJson_float]
    split
    · next hx => exact .float hx
    · exact .null
  | text s => exact .str s
  | bytes data =>
    refine .arr fun j hj => ?_
    obtain ⟨b, -, rfl⟩ := List.mem_map.mp hj
    have hb : b.toNat < UInt64.size := Nat.lt_trans b.toNat_lt (by decide)
    exact .int ⟨by omega, by omega⟩
  | timestamp t => exact .str _

theorem ofJson?_toJson (v : Value) : ofJson? v.toJson = some v.settled := by
  cases v with
  | null => rfl
  | bool b => rfl
  | int i =>
    have hread := ofJson?_int i.toInt
    rwa [if_pos (int64_bounds i), Int64.ofInt_toInt] at hread
  | float x =>
    rw [toJson_float, settled]
    split <;> rfl
  | text s => rfl
  | bytes data =>
    rw [toJson, ofJson?_arr, mapM_byteOfJson?_eq_some_iff.mpr rfl]
    rfl
  | timestamp t => rfl

/-- The shapes that values have. -/
inductive IsForm : Json → Prop
  | null : IsForm .null
  | bool (b : Bool) : IsForm (.bool b)
  | int (i : Int) : IsForm (.int i)
  | float (x : Binary64) : IsForm (.float x)
  | str (s : String) : IsForm (.str s)
  | bytes {items : List Int} (h : ∀ i ∈ items, 0 ≤ i ∧ i ≤ 255) : IsForm (.arr (items.map .int))

/-- A form is read as a value if and only if it has the shape of one. -/
theorem ofJson?_isSome_iff (j : Json) : (ofJson? j).isSome = true ↔ IsForm j := by
  cases j with
  | null => exact iff_of_true rfl .null
  | bool b => exact iff_of_true rfl (.bool b)
  | int i =>
    refine iff_of_true ?_ (.int i)
    rw [ofJson?_int]
    split <;> rfl
  | float x => exact iff_of_true rfl (.float x)
  | str s => exact iff_of_true rfl (.str s)
  | arr items =>
    rw [ofJson?_arr, Option.isSome_map, Option.isSome_iff_exists]
    simp only [mapM_byteOfJson?_eq_some_iff]
    constructor
    · rintro ⟨data, rfl⟩
      have hbytes : ∀ i ∈ data.map fun b => (b.toNat : Int), 0 ≤ i ∧ i ≤ 255 := by
        intro i hi
        obtain ⟨b, -, rfl⟩ := List.mem_map.mp hi
        have hb := b.toNat_lt
        omega
      have hform := IsForm.bytes hbytes
      rwa [List.map_map] at hform
    · rintro ⟨⟩
      next items h =>
      refine ⟨items.map fun i => UInt8.ofNat i.toNat, ?_⟩
      rw [List.map_map]
      refine List.map_congr_left fun i hi => ?_
      obtain ⟨hlow, hhigh⟩ := h i hi
      rw [Function.comp_apply, UInt8.toNat_ofNat', Json.int.injEq]
      omega
  | obj members => exact iff_of_false (by simp [ofJson?]) (by rintro ⟨⟩)

/-- What is read as a value is written as it was, except for a whole number that is too large. -/
theorem toJson_of_ofJson? (hj : j.Writable) (h : ofJson? j = some v) :
    v.toJson = j ∨ ∃ i x, j = .int i ∧ Int64.maxValue.toInt < i ∧ v = .float x ∧ x.IsNearest i ∧
      x.isFinite = true := by
  cases hj with
  | null =>
    obtain rfl := Option.some.inj h
    exact .inl rfl
  | bool b =>
    obtain rfl := Option.some.inj h
    exact .inl rfl
  | @int i hi =>
    rw [ofJson?_int] at h
    split at h
    · next hrange =>
      obtain rfl := Option.some.inj h
      have hmax : Int64.maxValue.toInt = 2 ^ 63 - 1 := by decide
      exact .inl (congrArg Json.int
        (Int64.toInt_ofInt_of_le hrange.1 (Int.lt_of_le_sub_one (hmax ▸ hrange.2))))
    · next hrange =>
      obtain rfl := Option.some.inj h
      have hlarge : Int64.maxValue.toInt < i := not_le.mp fun hle => hrange ⟨hi.1, hle⟩
      have hfinite := Binary64.isFinite_ofInt hi
      exact .inr ⟨i, _, rfl, hlarge, rfl, Binary64.isNearest_ofInt hfinite, hfinite⟩
  | @float x hx =>
    obtain rfl := Option.some.inj h
    exact .inl (if_pos hx)
  | str s =>
    obtain rfl := Option.some.inj h
    exact .inl rfl
  | arr _ =>
    rw [ofJson?_arr, Option.map_eq_some_iff] at h
    obtain ⟨data, hdata, rfl⟩ := h
    rw [mapM_byteOfJson?_eq_some_iff] at hdata
    exact .inl (congrArg Json.arr hdata.symm)
  | obj => contradiction

/-- Every value comes back from its text with its kind, except that a timestamp becomes text and
what is not finite becomes null. What has one of the shapes of a value, and nothing else, is read as
one, and it is written as it was, except that a whole number beyond 64 signed bits becomes the
nearest floating one. -/
theorem json_round_trip :
    (∀ v : Value, (parse? (compact v.toJson)).bind ofJson? = some v.settled) ∧
    (∀ j : Json, (ofJson? j).isSome = true ↔ IsForm j) ∧
    (∀ (s : String) (j : Json) (v : Value), parse? s = some j → ofJson? j = some v →
      (v.toJson = j ∧ parse? (compact v.toJson) = some j) ∨
      ∃ (i : Int) (x : Binary64), j = .int i ∧ Int64.maxValue.toInt < i ∧ v = .float x ∧
        x.IsNearest i ∧ parse? (compact v.toJson) = some (.float x)) ∧
    ∀ (i : Int) (v : Value), i < Int64.minValue.toInt ∨ Int64.maxValue.toInt < i →
      (parse? (toString i)).bind ofJson? = some v →
        ∃ x : Binary64, v = .float x ∧ x.IsNearest i := by
  refine ⟨fun v => ?_, ofJson?_isSome_iff, fun s j v hs hv => ?_, fun i v hi hv => ?_⟩
  · rw [parse?_compact (writable_toJson v), Option.bind_some, ofJson?_toJson]
  · have hj := writable_of_parse? hs
    rcases toJson_of_ofJson? hj hv with heq | ⟨i, x, rfl, hi, rfl, hx, hfinite⟩
    · exact .inl ⟨heq, heq.symm ▸ parse?_compact hj⟩
    · refine .inr ⟨i, x, rfl, hi, rfl, hx, ?_⟩
      rw [toJson_float, if_pos hfinite]
      exact parse?_compact (.float hfinite)
  · obtain ⟨j, hj, hv⟩ := Option.bind_eq_some_iff.mp hv
    by_cases hwhole : IsWhole64 i
    · have hread : parse? (toString i) = some (.int i) := parse?_compact (.int hwhole)
      obtain rfl := Option.some.inj (hj.symm.trans hread)
      rw [ofJson?_int, if_neg (by omega)] at hv
      have hfinite := Binary64.isFinite_ofInt hwhole
      exact ⟨_, (Option.some.inj hv).symm, Binary64.isNearest_ofInt hfinite⟩
    · obtain ⟨x, rfl, hx⟩ := exists_of_parse?_toString hwhole hj
      exact ⟨x, (Option.some.inj hv).symm, hx⟩

/-- The least whole number that has 64 bits but no sign. -/
theorem json_round_trip_sample : ∃ x : Binary64,
    (parse? "9223372036854775808").bind ofJson? = some (.float x) ∧
    x.IsNearest 9223372036854775808 ∧
    parse? (compact (Value.float x).toJson) = some (.float x) := by
  obtain ⟨-, -, hforms, hnumbers⟩ := json_round_trip
  have hread : parse? "9223372036854775808" = some (.int 9223372036854775808) := by
    exact parse?_compact (j := .int 9223372036854775808) (.int ⟨by decide, by decide⟩)
  obtain ⟨x, hvalue⟩ : ∃ x, ofJson? (.int 9223372036854775808) = some (.float x) := ⟨_, rfl⟩
  have hboth : (parse? "9223372036854775808").bind ofJson? = some (.float x) := by
    rw [hread, Option.bind_some, hvalue]
  obtain ⟨y, hy, hx⟩ := hnumbers 9223372036854775808 _ (.inr (by decide)) hboth
  obtain rfl := Value.float.inj hy
  rcases hforms _ _ _ hread hvalue with ⟨hsame, -⟩ | ⟨i, y, -, -, hy, -, htext⟩
  · rw [toJson_float] at hsame
    split at hsame <;> contradiction
  · obtain rfl := Value.float.inj hy
    exact ⟨x, hboth, hx, htext⟩

end Value

end RowReplay
