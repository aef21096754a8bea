import Mathlib.Data.List.Basic

/-!
# JSON values

Arguments and results of tool calls are `serde_json::Value`s. Numbers keep the
three representations of `serde_json::Number`, which never holds a non-finite
float. Objects are the entries of the underlying ordered map, sorted by key.
-/

namespace UndoLog

/-- A finite IEEE 754 double, given by its bit pattern. -/
structure FiniteF64 where
  /-- Sign, eleven exponent bits and 52 fraction bits. -/
  bits : BitVec 64
  /-- An exponent of ones only would be an infinity or a NaN. -/
  finite : bits.extractLsb' 52 11 ≠ BitVec.allOnes 11
deriving DecidableEq

/-- Both zeros, which differ in their sign bit only. -/
def FiniteF64.isZero (x : FiniteF64) : Bool := x.bits.extractLsb' 0 63 == 0#63

/-- Floating-point equality on finite values: equal bits, or two zeros. -/
def FiniteF64.eq (x y : FiniteF64) : Bool := x.bits == y.bits || (x.isZero && y.isZero)

/-- The representations of `serde_json::Number`. -/
inductive JsonNumber where
  /-- A nonnegative integer. -/
  | posInt (n : UInt64)
  /-- The negative integer `-(n + 1)`. -/
  | negInt (n : BitVec 63)
  /-- A finite float. -/
  | float (x : FiniteF64)

/-- Equality of `serde_json::Number`. -/
def JsonNumber.eq : JsonNumber → JsonNumber → Bool
  | .posInt m, .posInt n => m == n
  | .negInt m, .negInt n => m == n
  | .float x, .float y => x.eq y
  | _, _ => false

/-- A JSON value. -/
inductive Json where
  | null
  | bool (b : Bool)
  | number (n : JsonNumber)
  | string (s : String)
  | array (items : List Json)
  | object (fields : List (String × Json))

mutual

/-- Equality of `serde_json::Value`. -/
def Json.eq : Json → Json → Bool
  | .null, .null => true
  | .bool a, .bool b => a == b
  | .number m, .number n => m.eq n
  | .string s, .string t => s == t
  | .array xs, .array ys => Json.eqItems xs ys
  | .object fs, .object gs => Json.eqFields fs gs
  | _, _ => false

/-- Equality of arrays, item by item. -/
def Json.eqItems : List Json → List Json → Bool
  | [], [] => true
  | x :: xs, y :: ys => x.eq y && Json.eqItems xs ys
  | _, _ => false

/-- Equality of ordered maps, entry by entry. -/
def Json.eqFields : List (String × Json) → List (String × Json) → Bool
  | [], [] => true
  | (k, x) :: fs, (l, y) :: gs => k == l && x.eq y && Json.eqFields fs gs
  | _, _ => false

end

@[simp] theorem JsonNumber.eq_refl (n : JsonNumber) : n.eq n = true := by
  cases n <;> simp [JsonNumber.eq, FiniteF64.eq]

mutual

/-- Value equality is reflexive. -/
theorem Json.eq_refl : (v : Json) → v.eq v = true
  | .null => by simp [Json.eq]
  | .bool b => by simp [Json.eq]
  | .number n => by simp [Json.eq]
  | .string s => by simp [Json.eq]
  | .array xs => by simpa [Json.eq] using Json.eqItems_refl xs
  | .object fs => by simpa [Json.eq] using Json.eqFields_refl fs

theorem Json.eqItems_refl : (xs : List Json) → Json.eqItems xs xs = true
  | [] => by simp [Json.eqItems]
  | x :: xs => by simp [Json.eqItems, Json.eq_refl x, Json.eqItems_refl xs]

theorem Json.eqFields_refl : (fs : List (String × Json)) → Json.eqFields fs fs = true
  | [] => by simp [Json.eqFields]
  | (k, x) :: fs => by simp [Json.eqFields, Json.eq_refl x, Json.eqFields_refl fs]

end

/-- The value of a key in an object. -/
def Json.field? (key : String) : Json → Option Json
  | .object fields => fields.lookup key
  | _ => none

/-! ## Tool results -/

/-- The output of an executed tool call, cached in `result_snapshot`. -/
structure ToolResult where
  success : Bool
  output : Json
  error : Option String
  durationMs : UInt64

/-- Decoding of an optional string. -/
def optionalString : Json → Option (Option String)
  | .null => some none
  | .string s => some (some s)
  | _ => none

/-- Decoding of a `u64`. -/
def unsigned : Json → Option UInt64
  | .number (.posInt n) => some n
  | _ => none

/-- Decoding of a `bool`. -/
def boolean : Json → Option Bool
  | .bool b => some b
  | _ => none

/-- `serde_json::to_value` on a tool result. The map sorts its keys. -/
def ToolResult.toValue (r : ToolResult) : Json :=
  .object [
    ("duration_ms", .number (.posInt r.durationMs)),
    ("error", r.error.elim .null .string),
    ("output", r.output),
    ("success", .bool r.success)]

/-- `serde_json::from_value::<ToolResult>`. The derived decoder takes an object,
where only `error` may be absent, or an array of the four fields in order. -/
def ToolResult.fromValue (v : Json) : Option ToolResult :=
  match v with
  | .object _ => do
    let success ← (v.field? "success").bind boolean
    let output ← v.field? "output"
    let error ← (v.field? "error").elim (some none) optionalString
    let durationMs ← (v.field? "duration_ms").bind unsigned
    pure { success, output, error, durationMs }
  | .array [success, output, error, durationMs] => do
    let success ← boolean success
    let error ← optionalString error
    let durationMs ← unsigned durationMs
    pure { success, output, error, durationMs }
  | _ => none

theorem ToolResult.fromValue_toValue (r : ToolResult) : fromValue r.toValue = some r := by
  obtain ⟨success, output, error, durationMs⟩ := r
  cases error <;>
    simp [toValue, fromValue, Json.field?, List.lookup_cons, boolean, optionalString, unsigned]

/-- What `fail_effect` stores in place of a result. -/
def failureValue (reason : String) : Json := .object [("error", .string reason)]

theorem ToolResult.fromValue_failureValue (reason : String) :
    fromValue (failureValue reason) = none := by
  simp [failureValue, fromValue, Json.field?, List.lookup_cons]

end UndoLog
