/-!
# JSON values

Parsed templates arrive as JSON. Objects keep the order in which their members were written, and a
number with a fraction or an exponent is kept as the bits of its nearest binary64 value.
-/

namespace TemplateCompiler

inductive Json where
  | null
  | bool (b : Bool)
  | int (n : Int)
  | real (bits : UInt64)
  | string (s : String)
  | array (items : List Json)
  | object (members : List (String × Json))
  deriving Inhabited, Repr

instance : Coe String Json := ⟨.string⟩

namespace Json

/-! ## Equality -/

mutual

/-- Whether two values are written alike. -/
def same : Json → Json → Bool
  | .null, .null => true
  | .bool a, .bool b => a == b
  | .int a, .int b => a == b
  | .real a, .real b => a == b
  | .string a, .string b => a == b
  | .array as, .array bs => sameItems as bs
  | .object as, .object bs => sameMembers as bs
  | _, _ => false

def sameItems : List Json → List Json → Bool
  | [], [] => true
  | a :: as, b :: bs => same a b && sameItems as bs
  | _, _ => false

def sameMembers : List (String × Json) → List (String × Json) → Bool
  | [], [] => true
  | (k, a) :: as, (l, b) :: bs => k == l && same a b && sameMembers as bs
  | _, _ => false

end

mutual

theorem same_self : ∀ a : Json, same a a = true
  | .null => rfl
  | .bool _ | .int _ | .real _ | .string _ => by simp [same]
  | .array as => by simp [same, sameItems_self as]
  | .object as => by simp [same, sameMembers_self as]

theorem sameItems_self : ∀ as : List Json, sameItems as as = true
  | [] => rfl
  | a :: as => by simp [sameItems, same_self a, sameItems_self as]

theorem sameMembers_self : ∀ as : List (String × Json), sameMembers as as = true
  | [] => rfl
  | (_, a) :: as => by simp [sameMembers, same_self a, sameMembers_self as]

end

mutual

theorem eq_of_same : ∀ a b : Json, same a b = true → a = b
  | .null, b, h => by cases b <;> simp_all [same]
  | .bool _, b, h => by cases b <;> simp_all [same]
  | .int _, b, h => by cases b <;> simp_all [same]
  | .real _, b, h => by cases b <;> simp_all [same]
  | .string _, b, h => by cases b <;> simp_all [same]
  | .array as, b, h => by
    cases b with
    | array bs => rw [eq_of_sameItems as bs (by simpa [same] using h)]
    | _ => simp [same] at h
  | .object as, b, h => by
    cases b with
    | object bs => rw [eq_of_sameMembers as bs (by simpa [same] using h)]
    | _ => simp [same] at h

theorem eq_of_sameItems : ∀ as bs : List Json, sameItems as bs = true → as = bs
  | [], bs, h => by cases bs <;> simp_all [sameItems]
  | a :: as, bs, h => by
    cases bs with
    | nil => simp [sameItems] at h
    | cons b bs =>
      simp only [sameItems, Bool.and_eq_true] at h
      rw [eq_of_same a b h.1, eq_of_sameItems as bs h.2]

theorem eq_of_sameMembers : ∀ as bs : List (String × Json), sameMembers as bs = true → as = bs
  | [], bs, h => by cases bs <;> simp_all [sameMembers]
  | (k, a) :: as, bs, h => by
    cases bs with
    | nil => simp [sameMembers] at h
    | cons b bs =>
      obtain ⟨l, b⟩ := b
      simp only [sameMembers, Bool.and_eq_true, beq_iff_eq] at h
      rw [h.1.1, eq_of_same a b h.1.2, eq_of_sameMembers as bs h.2]

end

instance : DecidableEq Json := fun a b =>
  if h : same a b = true then isTrue (eq_of_same a b h)
  else isFalse fun e => h (e ▸ same_self a)

/-! ## Reading values -/

/-- The member of an object by name; nothing for a value that is no object. -/
def get? (key : String) : Json → Option Json
  | .object members => members.lookup key
  | _ => none

/-- Null, false, zero and empty values do not count as given. -/
def truthy : Json → Bool
  | .null => false
  | .bool b => b
  | .int n => n != 0
  | .real bits => bits &&& 0x7FFFFFFFFFFFFFFF != 0
  | .string s => s != ""
  | .array items => !items.isEmpty
  | .object members => !members.isEmpty

def isNull : Json → Bool
  | .null => true
  | _ => false

/-- Whether something was written: a number counts even if it is zero. -/
def present : Json → Bool
  | .int _ | .real _ => true
  | v => v.truthy

def isText (v : Json) (text : String) : Bool :=
  match v with
  | .string s => s == text
  | _ => false

/-- A place in a text. True counts as one and false as zero. -/
def offset? : Json → Option Int
  | .int n => some n
  | .bool b => some b.toNat
  | _ => none

/-- The name of a value's kind, as messages give it. -/
def kindName : Json → String
  | .null => "NoneType"
  | .bool _ => "bool"
  | .int _ => "int"
  | .real _ => "float"
  | .string _ => "str"
  | .array _ => "list"
  | .object _ => "dict"

/-- A real value is a natural number exactly if its bits are those of that number. -/
def realOfNat (n : Nat) : UInt64 :=
  (Float.ofNat n).toBits

/-- Whether a value counts as the number `n`: true counts as one, false as zero, and a real may
equal an integer. -/
def isNumber (n : Nat) : Json → Bool
  | .bool b => b.toNat == n
  | .int i => i == n
  | .real bits => bits == realOfNat n
  | _ => false

end Json

end TemplateCompiler
