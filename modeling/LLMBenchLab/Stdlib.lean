import LLMBenchLab.Json
import LLMBenchLab.Numerals

/-!
# Stdlib: the library functions that are taken as given

Datetimes are modelled: microseconds on the wall clock of a zone, and an
instant is such a count in UTC. Arithmetic stays on the wall clock, so that a
sum may have another offset than the datetime it started from.

How floats and datetimes are written, JSON and SHA-256 are not: `Stdlib` is any
implementation of them, with the documented facts the results rest on. A
writer and a reader invert each other, and what is written is plain ASCII.
-/

namespace Python

open Text (Str CodePoint)

/-! ## Datetimes -/

/-- One after the last microsecond of year 9999, counted from the start of year 1. -/
def maxWall : ℤ := 3652059 * 86400 * 1000000

/-- The start of year 1000. -/
def year1000 : ℤ := 364877 * 86400 * 1000000

def days (n : ℕ) : ℤ := n * 86400 * 1000000

/-- The offset from UTC at a wall clock time, which may occur twice. -/
structure Zone where
  utcoffset : ℤ → Bool → ℤ

namespace Zone

/-- `datetime.UTC` -/
def utc : Zone := ⟨fun _ _ => 0⟩

end Zone

structure DateTime where
  wall : ℤ
  fold : Bool
  zone : Option Zone
  inRange : 0 ≤ wall ∧ wall < maxWall

/-- An aware datetime in UTC. -/
abbrev Instant := { wall : ℤ // 0 ≤ wall ∧ wall < maxWall }

instance : DecidableLT Instant := fun a b => inferInstanceAs (Decidable (a.val < b.val))

instance : DecidableLE Instant := fun a b => inferInstanceAs (Decidable (a.val ≤ b.val))

/-- The years that `%Y` reads and writes in the same way. -/
def FourDigitYear (t : Instant) : Prop := year1000 ≤ t.val

instance : DecidablePred FourDigitYear := fun _ => inferInstanceAs (Decidable (_ ≤ _))

/-- An instant; none where there is an `OverflowError`. -/
def instant? (wall : ℤ) : Option Instant :=
  if h : 0 ≤ wall ∧ wall < maxWall then some ⟨wall, h⟩ else none

theorem instant?_eq_some {wall : ℤ} {t : Instant} : instant? wall = some t ↔ t.val = wall := by
  rw [instant?]
  split
  · next h => exact ⟨fun heq => by cases heq; rfl, fun heq => congrArg some (Subtype.ext heq.symm)⟩
  · next h => exact ⟨(nomatch ·), fun heq => absurd (heq ▸ t.property) h⟩

@[simp] theorem instant?_val (t : Instant) : instant? t.val = some t := instant?_eq_some.mpr rfl

namespace DateTime

/-- `t.utcoffset()` -/
def utcoffset (t : DateTime) : Option ℤ := t.zone.map fun z => z.utcoffset t.wall t.fold

/-- `t + timedelta(..)` -/
def add (t : DateTime) (delta : ℤ) : Option DateTime :=
  if h : 0 ≤ t.wall + delta ∧ t.wall + delta < maxWall then
    some { wall := t.wall + delta, fold := false, zone := t.zone, inRange := h }
  else none

/-- The instant of a datetime; one without a zone is taken to be in UTC. -/
def toUtc (t : DateTime) : Option Instant := instant? (t.wall - t.utcoffset.getD 0)

end DateTime

/-- An instant as a datetime. -/
def Instant.toDateTime (t : Instant) : DateTime :=
  { wall := t.val, fold := false, zone := some .utc, inRange := t.property }

@[simp] theorem Instant.toUtc_toDateTime (t : Instant) : t.toDateTime.toUtc = some t :=
  instant?_eq_some.mpr (sub_zero t.val).symm

/-! ## Digests -/

/-- A digit of `hexdigest`. -/
def hexChar (n : ℕ) : CodePoint := Fin.ofNat _ (if n < 10 then 0x30 + n else 0x57 + n)

/-- `digest.hexdigest()` -/
def hexdigest (d : BitVec 256) : Str :=
  (List.range 64).map fun i => hexChar (d.toNat / 16 ^ (63 - i) % 16)

def isLowerHex (c : CodePoint) : Bool :=
  (0x30 ≤ c.val && c.val ≤ 0x39) || (0x61 ≤ c.val && c.val ≤ 0x66)

theorem isLowerHex_hexChar : ∀ n < 16, isLowerHex (hexChar n) = true := by decide

@[simp] theorem length_hexdigest (d : BitVec 256) : (hexdigest d).length = 64 := by simp [hexdigest]

theorem isLowerHex_of_mem_hexdigest {d : BitVec 256} {c : CodePoint} (h : c ∈ hexdigest d) :
    isLowerHex c = true := by
  obtain ⟨i, -, rfl⟩ := List.mem_map.mp h
  exact isLowerHex_hexChar _ (Nat.mod_lt _ (by decide))

/-! ## The library -/

/-- Why `float.fromhex` raises. -/
inductive HexFault where
  | value
  | overflow

structure Stdlib extends Codec where
  /-- `hashlib.sha256(data)` -/
  sha256 : List UInt8 → BitVec 256
  /-- `str(x)` -/
  reprFloat : Double → Str
  /-- `float(n)`, none where it raises `OverflowError` -/
  floatOfInt : ℤ → Option Double
  /-- `x.hex()` -/
  hex : Double → Str
  /-- `float.fromhex(text)` -/
  fromhex : Str → Except HexFault Double
  /-- `t.isoformat()`, of the wall clock time and the offset -/
  isoformat : ℤ → Option ℤ → Str
  /-- `datetime.fromisoformat(text)` -/
  fromisoformat : Str → Option DateTime
  /-- `t.strftime("%Y-%m-%dT%H:%M:%S.%fZ")` -/
  strftime : Instant → Str
  /-- `datetime.strptime(text, "%Y-%m-%dT%H:%M:%S.%fZ").replace(tzinfo=UTC)` -/
  strptime : Str → Option Instant
  /-- a conversion that succeeds is to a finite float of the same sign -/
  floatOfInt_finite : ∀ {n x}, floatOfInt n = some x → x.isFinite = true
  floatOfInt_nonneg : ∀ {n x}, 0 ≤ n → floatOfInt n = some x → x.isNegative = false
  hex_plain : ∀ x, PlainText (hex x)
  fromhex_hex : ∀ x, x.isFinite = true → fromhex (hex x) = .ok x
  isoformat_plain : ∀ wall offset, PlainText (isoformat wall offset)
  fromisoformat_isoformat : ∀ {wall}, 0 ≤ wall → wall < maxWall →
    ∃ t, fromisoformat (isoformat wall (some 0)) = some t ∧ t.wall = wall ∧ t.utcoffset = some 0
  strftime_plain : ∀ t, PlainText (strftime t)
  strptime_strftime : ∀ {t}, FourDigitYear t → strptime (strftime t) = some t

/-! ## Implementations from tables -/

section Tables

variable {α : Type} [DecidableEq α] (table : List (α × Str)) (code : α → ℕ) (decode : ℕ → Option α)

/-- The text of a value in the table; any other value is written in unary. -/
def tableWrite (a : α) : Str := (table.lookup a).getD (List.replicate (code a) (Text.ofChar 'x'))

def tableRead (s : Str) : Option α :=
  match table.find? fun p => decide (p.2 = s) with
  | some p => some p.1
  | none => decode s.length

/-- Texts that are plain, different from each other and not in unary. -/
structure TableTexts (table : List (α × Str)) : Prop where
  plain : ∀ p ∈ table, PlainText p.2
  inj : ∀ p ∈ table, ∀ q ∈ table, p.2 = q.2 → p = q
  unary : ∀ p ∈ table, ¬ p.2.all (· == Text.ofChar 'x') = true

omit [DecidableEq α] in
/-- The table without entries. -/
theorem TableTexts.nil : TableTexts ([] : List (α × Str)) := by
  constructor <;> simp

variable {table} {code} {decode}

theorem tableWrite_plain (ht : TableTexts table) (a : α) : PlainText (tableWrite table code a) := by
  rw [tableWrite]
  cases h : table.lookup a with
  | some s => exact ht.plain _ (mem_of_lookup h)
  | none =>
    intro c hc
    rw [List.eq_of_mem_replicate hc]
    decide

theorem tableRead_tableWrite (ht : TableTexts table) {a : α} (hcode : decode (code a) = some a) :
    tableRead table decode (tableWrite table code a) = some a := by
  rw [tableRead]
  split
  · next p hp =>
    have hmem := List.mem_of_find?_eq_some hp
    have heq : p.2 = tableWrite table code a := by simpa using List.find?_some hp
    rw [tableWrite] at heq
    cases h : table.lookup a with
    | some s =>
      rw [h] at heq
      exact congrArg (fun q : α × Str => some q.1)
        (ht.inj p hmem _ (mem_of_lookup h) heq)
    | none =>
      rw [h] at heq
      refine absurd ?_ (ht.unary p hmem)
      rw [heq]
      simp
  · next hnone =>
    rw [tableWrite]
    cases h : table.lookup a with
    | some s =>
      refine absurd (decide_eq_true ?_) (List.find?_eq_none.mp hnone _ (mem_of_lookup h))
      rw [tableWrite, h]
      rfl
    | none => simpa using hcode

end Tables

/-- The bits of a finite float as a number. -/
def Double.code : Double → ℕ
  | finite negative exponent fraction =>
    (negative.toNat * 2047 + exponent) * 2 ^ 52 + fraction
  | _ => 0

def Double.ofCode (n : ℕ) : Double :=
  finite (n / 2 ^ 52 / 2047 == 1) (Fin.ofNat _ (n / 2 ^ 52)) (Fin.ofNat _ n)

theorem Double.ofCode_code {x : Double} (h : x.isFinite = true) : ofCode x.code = x := by
  cases x with
  | infinite | nan => cases h
  | finite negative exponent fraction =>
    have he := exponent.isLt
    have hf := fraction.isLt
    have hdiv : ((negative.toNat * 2047 + exponent) * 2 ^ 52 + fraction) / 2 ^ 52 =
        negative.toNat * 2047 + exponent := by omega
    rw [ofCode, code, hdiv]
    congr 1
    · cases negative with
      | false => simp; omega
      | true => simp
    · exact Fin.ext (by simp only [Fin.ofNat]; omega)
    · exact Fin.ext (by simp only [Fin.ofNat]; omega)

/-- The tables of an implementation: what is encoded, hashed and written as it is
in the library; all other values are written in unary. -/
structure Tables where
  json : Codec
  digests : List (List UInt8 × BitVec 256)
  floats : List (Double × Str)
  isos : List (ℤ × Str)
  stamps : List (Instant × Str)
  floats_texts : TableTexts floats
  isos_texts : TableTexts isos
  stamps_texts : TableTexts stamps

/-- The datetime in UTC with this wall clock time. -/
def isoOf (wall : ℤ) : Option DateTime :=
  if h : 0 ≤ wall ∧ wall < maxWall then some ⟨wall, false, some .utc, h⟩ else none

def Stdlib.ofTables (T : Tables) : Stdlib where
  toCodec := T.json
  sha256 data := (T.digests.lookup data).getD 0
  reprFloat _ := []
  floatOfInt _ := none
  hex x := tableWrite T.floats Double.code x
  fromhex s := (tableRead T.floats (fun n => some (Double.ofCode n)) s).elim (.error .value) .ok
  isoformat wall _ := tableWrite T.isos Int.toNat wall
  fromisoformat s := tableRead T.isos (fun n => some (n : ℤ)) s >>= isoOf
  strftime t := tableWrite T.stamps (fun t => t.val.toNat) t
  strptime s := tableRead T.stamps (fun n => instant? n) s
  floatOfInt_finite h := nomatch h
  floatOfInt_nonneg _ h := nomatch h
  hex_plain := tableWrite_plain T.floats_texts
  fromhex_hex x h := by
    rw [tableRead_tableWrite T.floats_texts (congrArg some (Double.ofCode_code h))]
    rfl
  isoformat_plain wall _ := tableWrite_plain T.isos_texts wall
  fromisoformat_isoformat := by
    intro wall h0 h1
    refine ⟨⟨wall, false, some .utc, h0, h1⟩, ?_, rfl, rfl⟩
    rw [tableRead_tableWrite T.isos_texts (congrArg some (Int.toNat_of_nonneg h0))]
    exact dif_pos ⟨h0, h1⟩
  strftime_plain := tableWrite_plain T.stamps_texts
  strptime_strftime := by
    intro t _
    refine tableRead_tableWrite T.stamps_texts (instant?_eq_some.mpr ?_)
    exact (Int.toNat_of_nonneg t.property.1).symm

end Python
