import Leetrank.Library.Text

namespace Leetrank
set_option autoImplicit true

/-- The white space of Unicode beyond Latin-1, on which Go, JavaScript and Python agree. -/
def wideSpace (c : Char) : Bool :=
  c.val == 0x1680 || (0x2000 ≤ c.val && c.val ≤ 0x200a) || c.val == 0x2028 || c.val == 0x2029 ||
    c.val == 0x202f || c.val == 0x205f || c.val == 0x3000

def asciiSpace (c : Char) : Bool := (9 ≤ c.val && c.val ≤ 13) || c.val == 32

/-- Go's `unicode.IsSpace`. -/
def goSpace (c : Char) : Bool :=
  asciiSpace c || c.val == 0x85 || c.val == 0xa0 || wideSpace c

/-- The white space and line terminators of ECMAScript. -/
def jsSpace (c : Char) : Bool :=
  asciiSpace c || c.val == 0xa0 || c.val == 0xfeff || wideSpace c

/-- Python's `str.isspace`. -/
def pySpace (c : Char) : Bool :=
  asciiSpace c || (0x1c ≤ c.val && c.val ≤ 0x1f) || c.val == 0x85 || c.val == 0xa0 || wideSpace c

/-- Ruby's `String#strip` also removes null characters. -/
def rubySpace (c : Char) : Bool := asciiSpace c || c.val == 0

/-- Go's `strings.TrimSpace`. -/
def trimSpace (s : String) : String := Text.trim goSpace s

/-- Go's `unicode.ToLower`, exact on every character whose lower case is an ASCII letter. -/
def goLower (c : Char) : Char :=
  if c.val = 0x130 then 'i' else if c.val = 0x212a then 'k' else c.toLower

theorem goSpace_letter {c : Char} (h1 : 65 ≤ c.toNat) (h2 : c.toNat ≤ 122) :
    goSpace c = false := by
  simp only [goSpace, asciiSpace, wideSpace, Bool.or_eq_false_iff, Bool.and_eq_false_iff,
    decide_eq_false_iff_not, beq_eq_false_iff_ne, ne_eq, UInt32.le_iff_toNat_le,
    ← UInt32.toNat_inj]
  simp
  omega

/-- Lower-casing neither makes white space nor takes it away. -/
theorem goSpace_goLower (c : Char) : goSpace (goLower c) = goSpace c := by
  unfold goLower
  split
  next h =>
    simp only [goSpace, asciiSpace, wideSpace, h]
    decide
  next =>
    split
    next h =>
      simp only [goSpace, asciiSpace, wideSpace, h]
      decide
    next =>
      unfold Char.toLower
      split
      next h =>
        have h1 : 65 ≤ c.toNat := UInt32.le_iff_toNat_le.1 h.1
        have h2 : c.toNat ≤ 90 := UInt32.le_iff_toNat_le.1 h.2
        rw [goSpace_letter h1 (by omega)]
        apply goSpace_letter
        · simp [UInt32.toNat_add]
          omega
        · simp [UInt32.toNat_add]
          omega
      next => rfl

def toLower (s : String) : String := String.ofList (s.toList.map goLower)

/-- Go's `unicode.ToLower`: white space is what it was before. -/
structure CaseMap where
  lower : Char → Char
  space : ∀ c, goSpace (lower c) = goSpace c

/-- `strings.ToLower`. -/
def CaseMap.toLower (m : CaseMap) (s : String) : String := String.ofList (s.toList.map m.lower)

theorem CaseMap.trim_toLower (m : CaseMap) (s : String) :
    trimSpace (m.toLower s) = m.toLower (trimSpace s) :=
  Text.trim_map m.space s

theorem CaseMap.toLower_eq_self_iff (m : CaseMap) (s : String) :
    m.toLower s = s ↔ ∀ c ∈ s.toList, m.lower c = c := by
  have hmap : s.toList.map m.lower = s.toList.map (fun c => c) ↔ ∀ c ∈ s.toList, m.lower c = c :=
    List.map_inj_left
  rw [← hmap, List.map_id', ← String.toList_inj, CaseMap.toLower, String.toList_ofList]

/-- The case map on ASCII and on the characters that are mapped into it. -/
def goCaseMap : CaseMap := ⟨goLower, goSpace_goLower⟩

/-- ECMAScript's `RegExp.prototype.test` for a literal ASCII pattern with the `i` flag. Without the
`u` flag no character outside ASCII is folded onto an ASCII one. -/
def testIgnoreCase (pattern s : String) : Bool := Text.containsFold Char.toUpper s pattern

/-- Copy a text, putting `new` for each occurrence of `old`; `skip` counts the characters of the
occurrence that was just replaced. -/
def replaceFrom (old new : List Char) : Nat → List Char → List Char
  | _, [] => []
  | skip + 1, _ :: s => replaceFrom old new skip s
  | 0, c :: s =>
    if old.isPrefixOf (c :: s) then new ++ replaceFrom old new (old.length - 1) s
    else c :: replaceFrom old new 0 s

/-- Go's `strings.ReplaceAll` for a pattern that is not empty. -/
def replaceAll (s old new : String) : String :=
  String.ofList (replaceFrom old.toList new.toList 0 s.toList)

def leadingNat (s : List Char) : Option Int :=
  match s.takeWhile Char.isDigit with
  | [] => none
  | digits => some (Nat.ofDigitChars 10 digits 0)

theorem toString_inj {n m : Nat} (h : (toString n).toList = (toString m).toList) : n = m := by
  simp only [Nat.toString_eq_repr, Nat.repr, String.toList_ofList] at h
  rw [← Nat.ofDigitChars_ten_toDigits (n := n), h, Nat.ofDigitChars_ten_toDigits]

/-- ECMAScript's `parseInt` with radix 10, `none` being `NaN`. -/
def parseInt (s : String) : Option Int :=
  match s.toList.dropWhile jsSpace with
  | '-' :: s => (leadingNat s).map (- ·)
  | '+' :: s => leadingNat s
  | s => leadingNat s

/-- What a text that may be `null` is in a condition: `none` if it is `null` or empty. -/
def truthy (s : Option String) : Option String := s.filter (· ≠ "")

theorem truthy_of_getD {s : Option String} (h : s.getD "" = "") : truthy s = none := by
  cases s with
  | none => rfl
  | some s =>
    cases h
    rfl

theorem truthy_of_mem {s : Option String} (h : c ∈ (s.getD "").toList) :
    truthy s = some (s.getD "") := by
  cases s with
  | none => cases h
  | some s =>
    refine Option.filter_eq_some_iff.2 ⟨rfl, decide_eq_true ?_⟩
    rintro rfl
    cases h

/-- Reading `null` as the empty text keeps what the text is in a condition. -/
theorem truthy_congr {s t : Option String} (h : s.getD "" = t.getD "") : truthy s = truthy t := by
  cases s with
  | none => exact (truthy_of_getD h.symm).symm
  | some s =>
    cases t with
    | none => exact truthy_of_getD h
    | some t => exact congrArg truthy (congrArg some h)

theorem isDigit_of_mem_toString {n : Nat} (h : c ∈ (toString n).toList) : c.isDigit = true := by
  rw [Nat.toString_eq_repr, Nat.repr, String.toList_ofList] at h
  exact Nat.isDigit_of_mem_toDigits (b := 10) (by decide) (by decide) h

end Leetrank
