import Leetrank.Library.JsValue

namespace Leetrank.ApiLogger
set_option autoImplicit true

open Js

inductive Level where
  | debug
  | info
  | warn
  | error

def Level.rank : Level → Nat
  | .debug => 0
  | .info => 1
  | .warn => 2
  | .error => 3

def Level.name : Level → String
  | .debug => "debug"
  | .info => "info"
  | .warn => "warn"
  | .error => "error"

abbrev Fields : Type := List (String × Value)

def redactKeys : List String :=
  ["password", "passwd", "token", "authorization", "auth", "cookie", "set-cookie", "secret", "jwt",
    "api_key", "apikey", "session"]

def maxDepth : Nat := 6

def depthLimit : Value := .string (units "[depth-limit]")

def redacted : Value := .string (units "[REDACTED]")

/-- An assignment to a field, which keeps its place if it is there already. -/
def setField (key : String) (x : Value) : Fields → Fields
  | [] => [(key, x)]
  | (k, y) :: fields => if k = key then (k, x) :: fields else (k, y) :: setField key x fields

/-- `{ ...base, ...fields }` -/
def spread (base fields : Fields) : Fields :=
  fields.foldl (fun all f => setField f.1 f.2 all) base

section
variable (toLowerCase : String → String)

def isRedacted (key : String) : Bool := redactKeys.contains (toLowerCase key)

mutual
def redact (depth : Nat) : Value → Value
  | .array xs => if maxDepth < depth then depthLimit else .array (redactAll (depth + 1) xs)
  | .object fields =>
    if maxDepth < depth then depthLimit else .object (redactFields (depth + 1) fields)
  | v => if maxDepth < depth then depthLimit else v

def redactAll (depth : Nat) : List Value → List Value
  | [] => []
  | x :: xs => redact depth x :: redactAll depth xs

def redactFields (depth : Nat) : Fields → Fields
  | [] => []
  | (key, x) :: fields =>
    (key, if isRedacted toLowerCase key then redacted else redact depth x) ::
      redactFields depth fields
end

/-- The line that a call in production prints, unless its level is too low. -/
def write (minLevel level : Level) (ts msg : String) (fields : Fields) : Option Value :=
  if level.rank < minLevel.rank then none
  else
    let line := [("ts", Value.string (units ts)), ("level", .string (units level.name)),
      ("msg", .string (units msg))]
    some (Value.object (spread line (redactFields toLowerCase 1 fields))).throughJson

/-- A logger, by the fields that each of its lines has. -/
structure Logger where
  baseFields : Fields

def Logger.with (l : Logger) (fields : Fields) : Logger := ⟨spread l.baseFields fields⟩

def Logger.log (l : Logger) (minLevel level : Level) (ts msg : String) (fields : Fields) :
    Option Value :=
  write toLowerCase minLevel level ts msg (spread l.baseFields fields)

mutual
/-- Two values are the same apart from what stands under a sensitive key or too deep. -/
def Alike (depth : Nat) : Value → Value → Prop
  | .array xs, .array ys => maxDepth < depth ∨ AlikeAll (depth + 1) xs ys
  | .object fields, .object fields' => maxDepth < depth ∨ AlikeFields (depth + 1) fields fields'
  | v, w => maxDepth < depth ∨ v = w

def AlikeAll (depth : Nat) : List Value → List Value → Prop
  | [], [] => True
  | x :: xs, y :: ys => Alike depth x y ∧ AlikeAll depth xs ys
  | _, _ => False

def AlikeFields (depth : Nat) : Fields → Fields → Prop
  | [], [] => True
  | (key, x) :: fields, (key', y) :: fields' =>
    key = key' ∧ (isRedacted toLowerCase key = true ∨ Alike depth x y) ∧
      AlikeFields depth fields fields'
  | _, _ => False
end

end

variable {toLowerCase : String → String} {depth : Nat} {base fields fields' : Fields}

theorem redact_of_deep (h : maxDepth < depth) (v : Value) :
    redact toLowerCase depth v = depthLimit := by
  cases v <;> exact if_pos h

theorem alike_of_deep (h : maxDepth < depth) (v w : Value) : Alike toLowerCase depth v w := by
  cases v <;> cases w <;> exact Or.inl h

mutual
theorem redact_eq_iff (depth : Nat) : ∀ v w : Value,
    redact toLowerCase depth v = redact toLowerCase depth w ↔ Alike toLowerCase depth v w
  | .array xs, w => by
    by_cases hd : maxDepth < depth
    · rw [redact_of_deep hd, redact_of_deep hd]
      exact iff_of_true rfl (alike_of_deep hd _ w)
    · cases w with
      | array ys =>
        rw [redact, redact, Alike, if_neg hd, if_neg hd, Value.array.injEq, or_iff_right hd]
        exact redactAll_eq_iff (depth + 1) xs ys
      | _ => simp [redact, Alike, hd]
  | .object fields, w => by
    by_cases hd : maxDepth < depth
    · rw [redact_of_deep hd, redact_of_deep hd]
      exact iff_of_true rfl (alike_of_deep hd _ w)
    · cases w with
      | object fields' =>
        rw [redact, redact, Alike, if_neg hd, if_neg hd, Value.object.injEq, or_iff_right hd]
        exact redactFields_eq_iff (depth + 1) fields fields'
      | _ => simp [redact, Alike, hd]
  | .null, w | .bool _, w | .number _, w | .string _, w => by
    by_cases hd : maxDepth < depth
    · rw [redact_of_deep hd, redact_of_deep hd]
      exact iff_of_true rfl (alike_of_deep hd _ w)
    · cases w <;> simp [redact, Alike, hd]

theorem redactAll_eq_iff (depth : Nat) : ∀ xs ys : List Value,
    redactAll toLowerCase depth xs = redactAll toLowerCase depth ys ↔
      AlikeAll toLowerCase depth xs ys
  | [], [] => iff_of_true rfl trivial
  | [], _ :: _ => iff_of_false (List.cons_ne_nil _ _).symm id
  | _ :: _, [] => iff_of_false (List.cons_ne_nil _ _) id
  | x :: xs, y :: ys => by
    rw [redactAll, redactAll, AlikeAll, List.cons.injEq, redact_eq_iff depth x y,
      redactAll_eq_iff depth xs ys]

theorem redactFields_eq_iff (depth : Nat) : ∀ fields fields' : Fields,
    redactFields toLowerCase depth fields = redactFields toLowerCase depth fields' ↔
      AlikeFields toLowerCase depth fields fields'
  | [], [] => iff_of_true rfl trivial
  | [], _ :: _ => iff_of_false (List.cons_ne_nil _ _).symm id
  | _ :: _, [] => iff_of_false (List.cons_ne_nil _ _) id
  | (key, x) :: fields, (key', y) :: fields' => by
    rw [redactFields, redactFields, AlikeFields, List.cons.injEq, Prod.mk.injEq,
      redactFields_eq_iff depth fields fields', and_assoc]
    refine and_congr_right fun hkey => and_congr_left fun _ => ?_
    subst hkey
    by_cases hkey : isRedacted toLowerCase key = true
    · rw [if_pos hkey, if_pos hkey]
      exact iff_of_true rfl (.inl hkey)
    · rw [if_neg hkey, if_neg hkey, or_iff_right hkey]
      exact redact_eq_iff depth x y
end

theorem AlikeFields.refl (fields : Fields) : AlikeFields toLowerCase depth fields fields :=
  (redactFields_eq_iff depth fields fields).1 rfl

theorem AlikeFields.setField {x y : Value} (h : AlikeFields toLowerCase depth fields fields')
    (hxy : isRedacted toLowerCase key = true ∨ Alike toLowerCase depth x y) :
    AlikeFields toLowerCase depth (setField key x fields) (setField key y fields') := by
  induction fields generalizing fields' with
  | nil =>
    cases fields' with
    | nil => exact ⟨rfl, hxy, trivial⟩
    | cons => exact h.elim
  | cons f fields ih =>
    cases fields' with
    | nil => exact h.elim
    | cons f' fields' =>
      obtain ⟨k, z⟩ := f
      obtain ⟨k', z'⟩ := f'
      obtain ⟨rfl, hz, hrest⟩ := h
      rw [ApiLogger.setField, ApiLogger.setField]
      by_cases hk : k = key
      · rw [if_pos hk, if_pos hk, hk]
        exact ⟨rfl, hxy, hrest⟩
      · rw [if_neg hk, if_neg hk]
        exact ⟨rfl, hz, ih hrest⟩

theorem AlikeFields.spread (h : AlikeFields toLowerCase depth fields fields')
    (hbase : AlikeFields toLowerCase depth base base') :
    AlikeFields toLowerCase depth (spread base fields) (spread base' fields') := by
  induction fields generalizing fields' base base' with
  | nil =>
    cases fields' with
    | nil => exact hbase
    | cons => exact h.elim
  | cons f fields ih =>
    cases fields' with
    | nil => exact h.elim
    | cons f' fields' =>
      obtain ⟨k, z⟩ := f
      obtain ⟨k', z'⟩ := f'
      obtain ⟨rfl, hz, hrest⟩ := h
      have hall := ih hrest (hbase.setField hz)
      exact hall

/-- Redaction hides what stands under a sensitive key or too deep, at any place of a value, and
nothing else; so a logger prints the same line for fields that differ only there. -/
theorem log_redacts : (∀ depth v w, redact toLowerCase depth v = redact toLowerCase depth w ↔
      Alike toLowerCase depth v w) ∧
    ∀ (l : Logger) minLevel level ts msg fields fields', AlikeFields toLowerCase 1 fields fields' →
      l.log toLowerCase minLevel level ts msg fields =
        l.log toLowerCase minLevel level ts msg fields' := by
  refine ⟨redact_eq_iff, fun l minLevel level ts msg fields fields' h => ?_⟩
  have hspread := h.spread (AlikeFields.refl l.baseFields)
  rw [Logger.log, Logger.log, write, write, (redactFields_eq_iff 1 _ _).2 hspread]

/-- The fields of a request whose headers have a token. -/
def requestFields (token : String) : Fields :=
  [("path", .string (units "/me")),
    ("headers", .array [.object [("Authorization", .string (units token))]])]

def lowerAscii (s : String) : String := String.ofList (s.toList.map Char.toLower)

theorem log_redacts_token :
    (Logger.mk []).log lowerAscii .info .info "12:00" "request" (requestFields "Bearer a") =
      (Logger.mk []).log lowerAscii .info .info "12:00" "request" (requestFields "Bearer b") := by
  have hheader : isRedacted lowerAscii "Authorization" = true := by decide
  apply log_redacts.2
  exact ⟨rfl, .inr (.inr rfl), rfl, .inr (.inr ⟨.inr ⟨rfl, .inl hheader, trivial⟩, trivial⟩),
    trivial⟩

end Leetrank.ApiLogger
