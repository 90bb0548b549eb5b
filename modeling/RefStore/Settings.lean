import RefStore.Decimal

/-!
# Settings of a store

The four settings of a store, read from named variables and checked.
-/

namespace RefStore

structure Settings where
  directory : String
  pageSize : Nat
  poolPages : Nat
  syncOnCommit : Bool
  deriving DecidableEq, Repr

inductive SettingsError where
  | invalidValue (name reason : String)
  deriving DecidableEq, Repr

def SettingsError.message : SettingsError → String
  | invalidValue name reason => s!"invalid value for {name}: {reason}"

namespace Settings

def minPageSize : Nat := 1024

def maxPageSize : Nat := 65536

def directoryVariable : String := "RIDBAG_DATA_DIRECTORY"

def pageSizeVariable : String := "RIDBAG_PAGE_SIZE"

def poolPagesVariable : String := "RIDBAG_BUFFER_POOL_PAGES"

def syncVariable : String := "RIDBAG_SYNC_ON_COMMIT"

def ofDirectory (directory : String) : Settings := ⟨directory, 8192, 16384, true⟩

def text (s : Settings) : String :=
  s!"data_directory={s.directory}, page_size={s.pageSize}, sync_on_commit={s.syncOnCommit}"

def validate (s : Settings) : Except SettingsError Unit :=
  if s.pageSize < minPageSize ∨ maxPageSize < s.pageSize ∨ s.pageSize % 4 ≠ 0 then
    .error (.invalidValue pageSizeVariable
      (toString s.pageSize ++ s!" is not a multiple of 4 between {minPageSize} and {maxPageSize}"))
  else if s.poolPages = 0 then .error (.invalidValue poolPagesVariable "must be at least 1")
  else .ok ()

theorem validate_eq_ok_iff {s : Settings} : s.validate = .ok () ↔
    minPageSize ≤ s.pageSize ∧ s.pageSize ≤ maxPageSize ∧ s.pageSize % 4 = 0 ∧ 0 < s.poolPages := by
  rw [validate]
  split
  · next hsize =>
    simp only [reduceCtorEq, false_iff]
    omega
  · next hsize =>
    split
    · next hpool =>
      simp only [reduceCtorEq, false_iff]
      omega
    · next hpool =>
      simp only [true_iff]
      omega

/-- White space of any script. -/
def isBlank (c : Char) : Bool :=
  let n := c.toNat
  (9 ≤ n && n ≤ 13) || n = 32 || n = 0x85 || n = 0xA0 || n = 0x1680 ||
    (0x2000 ≤ n && n ≤ 0x200A) || n = 0x2028 || n = 0x2029 || n = 0x202F || n = 0x205F || n = 0x3000

def trim (cs : List Char) : List Char :=
  ((cs.dropWhile isBlank).reverse.dropWhile isBlank).reverse

def truth? (cs : List Char) : Option Bool :=
  if cs = "true".toList then some true else if cs = "false".toList then some false else none

/-- The value of a variable, or the default if it is not set. -/
def setting {α : Type} (lookup : String → Option String) (name : String) (default : α)
    (parse : List Char → Option α) (expected : String) : Except SettingsError α :=
  match lookup name with
  | none => .ok default
  | some value =>
    match parse (trim value.toList) with
    | some a => .ok a
    | none => .error (.invalidValue name s!"'{value}' is not {expected}")

def ofVariables (lookup : String → Option String) : Except SettingsError Settings := do
  let defaults := ofDirectory ((lookup directoryVariable).getD "./data")
  let pageSize ←
    setting lookup pageSizeVariable defaults.pageSize Decimal.count? "a byte count"
  let poolPages ←
    setting lookup poolPagesVariable defaults.poolPages Decimal.count? "a page count"
  let syncOnCommit ←
    setting lookup syncVariable defaults.syncOnCommit truth? "true or false"
  let settings := { defaults with pageSize, poolPages, syncOnCommit }
  settings.validate
  return settings

end Settings

end RefStore
