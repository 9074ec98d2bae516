import Vban.Library.LittleEndian
import Vban.Library.Places
import Vban.Library.Window

/-! `get_value_by_key`, and the lists of fields that it reads. -/
namespace Vban.Discovery

open Library

/-- The bytes of a string constant. -/
def chars (s : String) : List UInt8 := s.toList.map fun c => UInt8.ofNat c.toNat

/-- Space, comma and semicolon. -/
def isSeparator (c : UInt8) : Bool := c = 32 || c = 44 || c = 59

/-- Double and single quote. -/
def isQuote (c : UInt8) : Bool := c = 34 || c = 39

def equalSign : UInt8 := 61

/-- The `val_len` characters of the value at `val_start`. -/
def valueAt : List UInt8 → List UInt8
  | [] => []
  | c :: rest =>
    if isQuote c then rest.takeWhile (· ≠ c) else (c :: rest).takeWhile fun d => !isSeparator d

/-- What is returned for a value, and the memory of `res`. -/
def answer (res : List UInt8) (resSize : Nat) : Option (List UInt8) → Nat × List UInt8
  | none => (0, res)
  | some val => if val.length ≥ resSize then (0, res) else (1, overwrite res 0 (val ++ [0]))

/-- The loop from `ptr` on, with the character before `ptr`. -/
def scanKey (key res : List UInt8) (resSize : Nat) : Option UInt8 → List UInt8 → Nat × List UInt8
  | _, [] => (0, res)
  | before, c :: ptr =>
    -- `strstr` finds the places where the key stands one after the other.
    if key.isPrefixOf (c :: ptr) then
      let leftOk := before.all isSeparator
      let rightOk := ((c :: ptr).drop key.length).head? = some equalSign
      if leftOk ∧ rightOk then
        answer res resSize (some (valueAt ((c :: ptr).drop (key.length + 1))))
      else scanKey key res resSize (some c) ptr
    else scanKey key res resSize (some c) ptr

/-- Returns the status and the memory of `res`. The key is not empty. -/
def getValueByKey (source key res : List UInt8) (resSize : Nat) : Nat × List UInt8 :=
  if resSize = 0 then (0, res) else scanKey key res resSize none (cString source)

/-- `key=` stands behind the start of the text or a separator. -/
def keyStands (key : List UInt8) (before : Option UInt8) (rest : List UInt8) : Bool :=
  before.all isSeparator && (key ++ [equalSign]).isPrefixOf rest

variable {key res text rest : List UInt8} {resSize : Nat} {before : Option UInt8}

theorem keyStands_iff : keyStands key before rest = true ↔
    before.all isSeparator = true ∧ ∃ tail, rest = key ++ equalSign :: tail := by
  rw [keyStands, Bool.and_eq_true, List.isPrefixOf_iff_prefix]
  constructor
  · rintro ⟨hleft, tail, rfl⟩
    exact ⟨hleft, tail, by simp⟩
  · rintro ⟨hleft, tail, rfl⟩
    exact ⟨hleft, tail, by simp⟩

/-- The loop reads the value at the first place where the key stands. -/
theorem scanKey_eq (before : Option UInt8) (ptr : List UInt8) :
    scanKey key res resSize before ptr = answer res resSize
      ((firstPlace (keyStands key) before ptr).map fun rest =>
        valueAt (rest.drop (key.length + 1))) := by
  induction ptr generalizing before with
  | nil =>
    have hstands : ¬keyStands key before [] = true := by
      rw [keyStands_iff]
      rintro ⟨-, tail, htail⟩
      simp at htail
    rw [scanKey, firstPlace, if_neg hstands]
    rfl
  | cons c ptr ih =>
    have hstands : keyStands key before (c :: ptr) = true ↔ key.isPrefixOf (c :: ptr) = true ∧
        before.all isSeparator = true ∧
          ((c :: ptr).drop key.length).head? = some equalSign := by
      rw [keyStands_iff, List.isPrefixOf_iff_prefix]
      constructor
      · rintro ⟨hleft, tail, htail⟩
        rw [htail]
        exact ⟨List.prefix_append _ _, hleft, by simp⟩
      · rintro ⟨⟨tail, htail⟩, hleft, hright⟩
        rw [← htail, List.drop_left] at hright
        obtain ⟨tail', rfl⟩ := List.head?_eq_some_iff.mp hright
        exact ⟨hleft, tail', htail.symm⟩
    rw [scanKey, firstPlace]
    by_cases hp : keyStands key before (c :: ptr) = true
    · obtain ⟨hstarts, hleft, hright⟩ := hstands.mp hp
      simp only [if_pos hp, if_pos hstarts, hleft, hright, and_self, if_true]
      rfl
    · rw [if_neg hp, ← ih]
      by_cases hstarts : key.isPrefixOf (c :: ptr) = true
      · rw [if_pos hstarts, if_neg]
        intro hok
        exact hp (hstands.mpr ⟨hstarts, hok⟩)
      · rw [if_neg hstarts]

/-- A value as it is written: bare, or between two quotes that it does not contain. -/
inductive FieldValue
  | bare (text : List UInt8) (unquoted : ∀ c ∈ text.head?, isQuote c = false)
      (plain : ∀ c ∈ text, c ≠ 0 ∧ isSeparator c = false)
  | quoted (quote : UInt8) (text : List UInt8) (isQuote_quote : isQuote quote = true)
      (plain : ∀ c ∈ text, c ≠ 0 ∧ c ≠ quote)

namespace FieldValue

def written : FieldValue → List UInt8
  | bare text _ _ => text
  | quoted quote text _ _ => quote :: text ++ [quote]

def value : FieldValue → List UInt8
  | bare text _ _ => text
  | quoted _ text _ _ => text

end FieldValue

structure Field where
  key : List UInt8
  value : FieldValue
  plain : ∀ c ∈ key, c ≠ 0 ∧ c ≠ equalSign ∧ isSeparator c = false ∧ isQuote c = false

def Field.written (f : Field) : List UInt8 := f.key ++ equalSign :: f.value.written

abbrev Separator := { c : UInt8 // isSeparator c = true }

/-- Fields with the separator behind each; the one behind the last is not written. -/
def joinFields : List (Field × Separator) → List UInt8
  | [] => []
  | [(f, _)] => f.written
  | (f, s) :: g :: fields => f.written ++ s.val :: joinFields (g :: fields)

/-- The value of the first field with the key. -/
def lookup (fields : List (Field × Separator)) (key : List UInt8) : Option (List UInt8) :=
  (fields.find? fun f => f.1.key = key).map (·.1.value.value)

/-- Where the first field with the key starts; behind all fields if there is none. -/
def keyStart (key : List UInt8) : List (Field × Separator) → Nat
  | [] => 0
  | (f, _) :: fields => if f.key = key then 0 else f.written.length + 1 + keyStart key fields

variable {f : Field} {s : Separator} {fields : List (Field × Separator)}

/-- The fields behind the first one, with the separator before them. -/
def behind (s : Separator) : List (Field × Separator) → List UInt8
  | [] => []
  | g :: fields => s.val :: joinFields (g :: fields)

theorem joinFields_cons : joinFields ((f, s) :: fields) = f.written ++ behind s fields := by
  cases fields with
  | nil => simp [joinFields, behind]
  | cons g fields => rfl

theorem isSeparator_behind : ∀ c ∈ (behind s fields).head?, isSeparator c = true := by
  cases fields with
  | nil => simp [behind]
  | cons g fields => simpa [behind] using s.property

theorem takeWhile_append_stop {α : Type*} {p : α → Bool} {xs ys : List α}
    (hxs : ∀ x ∈ xs, p x = true) (hys : ∀ y ∈ ys.head?, p y = false) :
    (xs ++ ys).takeWhile p = xs := by
  rw [List.takeWhile_append_of_pos hxs]
  cases ys with
  | nil => simp
  | cons y ys => simp [hys y rfl]

theorem isQuote_of_isSeparator {c : UInt8} (h : isSeparator c = true) : isQuote c = false := by
  simp only [isSeparator, Bool.or_eq_true, decide_eq_true_eq] at h
  rcases h with (rfl | rfl) | rfl <;> rfl

/-- A written value reads back, up to a separator or the end. -/
theorem valueAt_written (v : FieldValue) (hrest : ∀ c ∈ rest.head?, isSeparator c = true) :
    valueAt (v.written ++ rest) = v.value := by
  cases v with
  | bare text hquote hplain =>
    have hbare : ((text ++ rest).takeWhile fun d => !isSeparator d) = text := by
      apply takeWhile_append_stop
      · intro c hc
        simp [(hplain c hc).2]
      · intro c hc
        simp [hrest c hc]
    change valueAt (text ++ rest) = text
    cases htext : text ++ rest with
    | nil => simp_all [valueAt]
    | cons c tail =>
      have hc : isQuote c = false := by
        cases text with
        | nil =>
          rw [List.nil_append] at htext
          exact isQuote_of_isSeparator (hrest c (by simp [htext]))
        | cons d text =>
          obtain ⟨rfl, -⟩ := List.cons.inj htext
          exact hquote d rfl
      rw [valueAt, hc, if_neg Bool.false_ne_true, ← htext, hbare]
  | quoted quote text hquote hplain =>
    change valueAt (quote :: text ++ [quote] ++ rest) = text
    rw [List.append_assoc, List.cons_append, valueAt, if_pos hquote]
    apply takeWhile_append_stop
    · intro c hc
      simpa using (hplain c hc).2
    · intro c hc
      simp_all

/-- The first field with the key is a place where the key stands. -/
theorem lookup_place (before : Option UInt8) {val : List UInt8}
    (hbefore : before.all isSeparator = true) (h : lookup fields key = some val) :
    ∃ a rest, Place (keyStands key) before (joinFields fields) a rest ∧
      a.length = keyStart key fields ∧ valueAt (rest.drop (key.length + 1)) = val := by
  induction fields generalizing before with
  | nil => cases h
  | cons fs fields ih =>
    obtain ⟨f, s⟩ := fs
    rw [joinFields_cons]
    by_cases hkey : f.key = key
    · have hval : val = f.value.value := by
        simpa [lookup, hkey] using h.symm
      refine ⟨[], f.written ++ behind s fields, place_nil.mpr ⟨rfl, ?_⟩, ?_, ?_⟩
      · rw [keyStands_iff, Field.written, hkey]
        exact ⟨hbefore, _, List.append_assoc _ _ _⟩
      · rw [keyStart, if_pos hkey, List.length_nil]
      · have hdrop : (f.written ++ behind s fields).drop (key.length + 1) =
            f.value.written ++ behind s fields := by
          rw [Field.written, hkey, List.append_assoc, ← List.drop_drop, List.drop_left]
          rfl
        rw [hdrop, valueAt_written _ isSeparator_behind, hval]
    · have hrest : lookup fields key = some val := by
        simpa [lookup, hkey] using h
      obtain ⟨a, rest, hplace, hlen, hval⟩ := ih (some s.val) (by simpa using s.property) hrest
      refine ⟨f.written ++ s.val :: a, rest, ?_, ?_, hval⟩
      · obtain ⟨hjoin, hstands⟩ := hplace
        refine ⟨?_, ?_⟩
        · cases fields with
          | nil => cases hrest
          | cons g fields => rw [behind, hjoin, List.append_assoc, List.cons_append]
        · rwa [lastOf_append, lastOf_cons]
      · rw [keyStart, if_neg hkey, List.length_append, List.length_cons, hlen]
        omega

/-- Without such a field every place is before `keyStart`. -/
theorem length_le_keyStart (h : lookup fields key = none) :
    (joinFields fields).length ≤ keyStart key fields := by
  induction fields with
  | nil => exact Nat.le_refl 0
  | cons fs fields ih =>
    obtain ⟨f, s⟩ := fs
    have hkey : f.key ≠ key := by
      intro hkey
      simp [lookup, hkey] at h
    have hrest : lookup fields key = none := by
      simpa [lookup, hkey] using h
    have hbehind : (behind s fields).length ≤ (joinFields fields).length + 1 := by
      cases fields with
      | nil => exact Nat.zero_le _
      | cons g fields => exact Nat.le_refl _
    have hle := ih hrest
    rw [joinFields_cons, List.length_append, keyStart, if_neg hkey]
    omega

/-- A place before the first field with the key where the key stands all the same. -/
def Stray (fields : List (Field × Separator)) (key a rest : List UInt8) : Prop :=
  Place (keyStands key) none (joinFields fields) a rest ∧ a.length < keyStart key fields

def FirstStray (fields : List (Field × Separator)) (key a rest : List UInt8) : Prop :=
  Stray fields key a rest ∧ ∀ a' rest', Stray fields key a' rest' → a.length ≤ a'.length

/-- The value that stands at a stray place does not change the answer: it is the wanted one, or
too long where the wanted one is too long or missing. -/
def SameAnswer (resSize : Nat) (val : List UInt8) : Option (List UInt8) → Prop
  | none => resSize ≤ val.length
  | some wanted => val = wanted ∨ resSize ≤ val.length ∧ resSize ≤ wanted.length

/-- The first place where the key stands is the first stray one, if there is one, else the first
field with the key. -/
theorem firstPlace_fields (fields : List (Field × Separator)) (key : List UInt8) :
    (∃ a rest, FirstStray fields key a rest ∧
      firstPlace (keyStands key) none (joinFields fields) = some rest) ∨
    (∀ a rest, ¬Stray fields key a rest) ∧
      (firstPlace (keyStands key) none (joinFields fields)).map
        (fun rest => valueAt (rest.drop (key.length + 1))) = lookup fields key := by
  cases hfirst : firstPlace (keyStands key) none (joinFields fields) with
  | none =>
    have hnone := firstPlace_eq_none.mp hfirst
    right
    refine ⟨fun a rest hstray => hnone a rest hstray.1, ?_⟩
    cases hlookup : lookup fields key with
    | none => rfl
    | some val =>
      obtain ⟨a, rest, hplace, -⟩ := lookup_place none rfl hlookup
      exact absurd hplace (hnone a rest)
  | some rest =>
    obtain ⟨a, hplace, hleast⟩ := firstPlace_spec hfirst
    by_cases hstray : a.length < keyStart key fields
    · left
      exact ⟨a, rest, ⟨⟨hplace, hstray⟩, fun a' rest' h => hleast a' rest' h.1⟩, rfl⟩
    right
    constructor
    · intro a' rest' h
      have := hleast a' rest' h.1
      exact hstray (Nat.lt_of_le_of_lt this h.2)
    cases hlookup : lookup fields key with
    | none =>
      -- The place lies within the text, and so before `keyStart`.
      exfalso
      obtain ⟨hjoin, hstands⟩ := hplace
      obtain ⟨-, tail, rfl⟩ := keyStands_iff.mp hstands
      have hlen := length_le_keyStart hlookup
      rw [hjoin, List.length_append, List.length_append, List.length_cons] at hlen
      omega
    | some val =>
      obtain ⟨a', rest', hplace', hlen', hval'⟩ := lookup_place none rfl hlookup
      have hle := hleast a' rest' hplace'
      obtain ⟨-, rfl⟩ := hplace.eq_of_length hplace' (by omega)
      exact congrArg some hval'

theorem written_ne_zero (f : Field) : ∀ c ∈ f.written, c ≠ 0 := by
  have hquote : ∀ q, isQuote q = true → q ≠ 0 := by
    rintro _ hq rfl
    cases hq
  have hvalue : ∀ v : FieldValue, ∀ c ∈ v.written, c ≠ 0 := by
    intro v c hc
    cases v with
    | bare text _ hplain => exact (hplain c hc).1
    | quoted quote text hq hplain =>
      rcases List.mem_append.mp hc with hc | hc
      · rcases List.mem_cons.mp hc with rfl | hc
        · exact hquote c hq
        · exact (hplain c hc).1
      · rw [List.mem_singleton.mp hc]
        exact hquote quote hq
  intro c hc
  rcases List.mem_append.mp hc with hc | hc
  · exact (f.plain c hc).1
  · rcases List.mem_cons.mp hc with rfl | hc
    · decide
    · exact hvalue _ c hc

/-- The written fields are a C string. -/
theorem joinFields_ne_zero : ∀ c ∈ joinFields fields, c ≠ 0 := by
  induction fields with
  | nil => simp [joinFields]
  | cons fs fields ih =>
    obtain ⟨f, s⟩ := fs
    intro c hc
    rw [joinFields_cons] at hc
    rcases List.mem_append.mp hc with hc | hc
    · exact written_ne_zero f c hc
    · cases fields with
      | nil => cases hc
      | cons g fields =>
        rcases List.mem_cons.mp hc with rfl | hc
        · intro hz
          have hs := s.property
          rw [hz] at hs
          cases hs
        · exact ih c hc

theorem mem_of_mem_valueAt : ∀ c ∈ valueAt text, c ∈ text := by
  intro c hc
  cases text with
  | nil => cases hc
  | cons d text =>
    rw [valueAt] at hc
    split_ifs at hc
    · exact List.mem_cons_of_mem d ((List.takeWhile_sublist _).mem hc)
    · exact (List.takeWhile_sublist _).mem hc

theorem lookup_ne_zero {val : List UInt8} (h : lookup fields key = some val) :
    ∀ c ∈ val, c ≠ 0 := by
  obtain ⟨a, rest, hplace, -, rfl⟩ := lookup_place none rfl h
  intro c hc
  apply joinFields_ne_zero c
  rw [hplace.1]
  exact List.mem_append_right _ (List.mem_of_mem_drop (mem_of_mem_valueAt c hc))

/-- Two values give one answer iff they are the same or the caller cannot tell them apart. -/
theorem answer_eq_iff {val : List UInt8} {wanted : Option (List UInt8)} (hval : ∀ c ∈ val, c ≠ 0)
    (hwanted : ∀ w ∈ wanted, ∀ c ∈ w, c ≠ 0) :
    answer res resSize (some val) = answer res resSize wanted ↔ SameAnswer resSize val wanted := by
  have hread : ∀ v, (∀ c ∈ v, c ≠ 0) → cString (overwrite res 0 (v ++ [0])) = v := by
    intro v hv
    rw [overwrite_zero, List.append_assoc]
    exact cString_append_zero hv _
  cases wanted with
  | none =>
    rw [answer, answer, SameAnswer]
    split_ifs with hlong
    · simpa using hlong
    · simpa using hlong
  | some w =>
    rw [answer, answer, SameAnswer]
    by_cases hlong : val.length ≥ resSize
    · by_cases hlong' : w.length ≥ resSize
      · rw [if_pos hlong, if_pos hlong']
        simp only [true_iff]
        exact Or.inr ⟨hlong, hlong'⟩
      · rw [if_pos hlong, if_neg hlong']
        constructor
        · intro h
          simp at h
        · rintro (rfl | h)
          · exact absurd hlong hlong'
          · exact absurd h.2 hlong'
    · by_cases hlong' : w.length ≥ resSize
      · rw [if_neg hlong, if_pos hlong']
        constructor
        · intro h
          simp at h
        · rintro (rfl | h)
          · exact absurd hlong' hlong
          · exact absurd h.1 hlong
      · rw [if_neg hlong, if_neg hlong']
        constructor
        · intro h
          left
          have hmem := congrArg cString (Prod.mk.inj h).2
          rwa [hread val hval, hread w (hwanted w rfl)] at hmem
        · rintro (rfl | h)
          · rfl
          · exact absurd h.1 hlong

/-- The answer is that of the first field with the key, iff no stray place stands before it or the
first stray one does not change the answer. -/
theorem get_value_by_key_iff (_hkey : key ≠ []) (fields : List (Field × Separator))
    (rest res : List UInt8) (resSize : Nat) :
    getValueByKey (joinFields fields ++ 0 :: rest) key res resSize =
        answer res resSize (lookup fields key) ↔
      ∀ a tail, FirstStray fields key a tail →
        SameAnswer resSize (valueAt (tail.drop (key.length + 1))) (lookup fields key) := by
  have hget : getValueByKey (joinFields fields ++ 0 :: rest) key res resSize =
      answer res resSize ((firstPlace (keyStands key) none (joinFields fields)).map
        fun tail => valueAt (tail.drop (key.length + 1))) := by
    rw [getValueByKey, cString_append_zero joinFields_ne_zero]
    split_ifs with hzero
    · subst hzero
      cases firstPlace (keyStands key) none (joinFields fields) with
      | none => rfl
      | some tail => simp [answer]
    · exact scanKey_eq none _
  rw [hget]
  rcases firstPlace_fields fields key with ⟨a, tail, hstray, hfirst⟩ | ⟨hnone, hfirst⟩
  · have hval : ∀ c ∈ valueAt (tail.drop (key.length + 1)), c ≠ 0 := by
      intro c hc
      apply joinFields_ne_zero c
      rw [hstray.1.1.1]
      exact List.mem_append_right _ (List.mem_of_mem_drop (mem_of_mem_valueAt c hc))
    have hwanted : ∀ w ∈ lookup fields key, ∀ c ∈ w, c ≠ 0 := fun w hw => lookup_ne_zero hw
    rw [hfirst, Option.map_some, answer_eq_iff hval hwanted]
    constructor
    · intro hsame a' tail' hstray'
      have hle := hstray.2 a' tail' hstray'.1
      have hge := hstray'.2 a tail hstray.1
      obtain ⟨-, rfl⟩ := hstray.1.1.eq_of_length hstray'.1.1 (by omega)
      exact hsame
    · intro hsame
      exact hsame a tail hstray
  · rw [hfirst]
    constructor
    · intro _ a tail hstray
      exact absurd hstray.1 (hnone a tail)
    · intro _
      rfl

/-- `ab=1 b='x y'` -/
def plainFields : List (Field × Separator) :=
  [(⟨chars "ab", .bare (chars "1") (by rintro c ⟨⟩; rfl) (forall_mem_of_all (by decide)),
      forall_mem_of_all (by decide)⟩, ⟨32, rfl⟩),
    (⟨chars "b", .quoted 39 (chars "x y") rfl (forall_mem_of_all (by decide)),
      forall_mem_of_all (by decide)⟩, ⟨32, rfl⟩)]

/-- The `b` of `ab` is no place where the key `b` stands. -/
theorem plainFields_no_stray (a tail : List UInt8) : ¬Stray plainFields (chars "b") a tail := by
  have hnone : ∀ k < 5, keyStands (chars "b") (lastOf none ((joinFields plainFields).take k))
      ((joinFields plainFields).drop k) = false := by
    decide
  rintro ⟨⟨hjoin, hstands⟩, hlt⟩
  have h := hnone a.length hlt
  rw [hjoin, List.take_left, List.drop_left, hstands] at h
  cases h

theorem plainFields_read :
    getValueByKey (joinFields plainFields ++ [0]) (chars "b") [9, 9, 9, 9] 4 =
      answer [9, 9, 9, 9] 4 (some (chars "x y")) :=
  (get_value_by_key_iff (by decide) plainFields [] [9, 9, 9, 9] 4).mpr fun a tail h =>
    absurd h.1 (plainFields_no_stray a tail)

/-- `a="x b=1"` -/
def decoyFields : List (Field × Separator) :=
  [(⟨chars "a", .quoted 34 (chars "x b=1") rfl (forall_mem_of_all (by decide)),
      forall_mem_of_all (by decide)⟩, ⟨32, rfl⟩)]

/-- What stands within the quotes is taken for a field. -/
theorem decoy_read : lookup decoyFields (chars "b") = none ∧
    getValueByKey (joinFields decoyFields ++ [0]) (chars "b") [9, 9, 9, 9] 4 =
      (1, [49, 34, 0, 9]) ∧
    getValueByKey (joinFields decoyFields ++ [0]) (chars "b") [9, 9, 9, 9] 4 ≠
      answer [9, 9, 9, 9] 4 (lookup decoyFields (chars "b")) := by
  decide

end Vban.Discovery
