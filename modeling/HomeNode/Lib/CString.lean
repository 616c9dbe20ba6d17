-- SUMMARY: C strings in byte buffers: the string a buffer holds, bounded copies, and the comparisons of string.h.
import Mathlib.Data.List.TakeWhile
import Mathlib.Tactic.Common

/-!
# C strings

A `char` array is a list of bytes. A `CStr` is the string such an array can
hold: the bytes before the first NUL. The functions of `string.h` are the usual
ones, on lists in place of pointers.
-/

/-- The characters of a C string, without the terminator. -/
structure CStr where
  bytes : List UInt8
  nulFree : 0 ∉ bytes
  deriving DecidableEq

namespace CStr

instance : Inhabited CStr := ⟨⟨[], by simp⟩⟩

@[ext] theorem ext {s t : CStr} (h : s.bytes = t.bytes) : s = t := by
  cases s; cases t; cases h; rfl

/-- The bytes of an ASCII literal. -/
def ascii (s : String) : List UInt8 :=
  s.toList.map (fun c => c.toNat.toUInt8)

def length (s : CStr) : Nat := s.bytes.length

def empty : CStr := ⟨[], by simp⟩

/-- The first `n` characters. -/
def take (s : CStr) (n : Nat) : CStr :=
  ⟨s.bytes.take n, fun h => s.nulFree (List.mem_of_mem_take h)⟩

@[simp] theorem take_bytes (s : CStr) (n : Nat) : (s.take n).bytes = s.bytes.take n := rfl

theorem take_eq_self_iff (s : CStr) (n : Nat) : s.take n = s ↔ s.length ≤ n := by
  constructor
  · intro h
    have hb : (s.bytes.take n).length = s.length := congrArg CStr.length h
    rw [List.length_take, CStr.length] at hb
    rw [CStr.length]
    omega
  · intro h
    exact CStr.ext (List.take_of_length_le h)

/-! ## The string a buffer holds -/

/-- `buf` read as a C string: everything before the first NUL. -/
def ofBuffer (buf : List UInt8) : CStr :=
  ⟨buf.takeWhile (· != 0), fun h => by simpa using List.mem_takeWhile_imp h⟩

private theorem bytes_ne_nul (s : CStr) : ∀ b ∈ s.bytes, (b != 0) = true := by
  intro b hb
  simp only [bne_iff_ne, ne_eq]
  rintro rfl
  exact s.nulFree hb

theorem ofBuffer_append_nul (s : CStr) (rest : List UInt8) :
    ofBuffer (s.bytes ++ 0 :: rest) = s := by
  apply CStr.ext
  simp only [ofBuffer]
  rw [List.takeWhile_append_of_pos s.bytes_ne_nul]
  simp

@[simp] theorem ofBuffer_bytes (s : CStr) : ofBuffer s.bytes = s := by
  apply CStr.ext
  exact List.takeWhile_eq_self_iff.mpr s.bytes_ne_nul

theorem ofBuffer_append_replicate_nul (s : CStr) (n : Nat) :
    ofBuffer (s.bytes ++ List.replicate n 0) = s := by
  cases n with
  | zero => simp
  | succ n => exact ofBuffer_append_nul s (List.replicate n 0)

/-- What stands behind a NUL does not count. -/
theorem ofBuffer_nul_append (bs rest : List UInt8) : ofBuffer (bs ++ 0 :: rest) = ofBuffer bs := by
  apply CStr.ext
  simp only [ofBuffer]
  rw [List.takeWhile_append]
  split
  case isTrue h =>
    have hself := (List.takeWhile_prefix _).eq_of_length h
    simp [hself]
  case isFalse => rfl

theorem length_ofBuffer_le (buf : List UInt8) : (ofBuffer buf).length ≤ buf.length :=
  (List.takeWhile_prefix _).length_le

@[simp] theorem ofBuffer_replicate_nul (n : Nat) : ofBuffer (List.replicate n 0) = empty := by
  cases n <;> rfl

/-! ## Copies -/

/-- `strncpy(dst, src, n)`: at most `n` characters, padded with NULs up to `n`.
The rest of `dst` stays. -/
def strncpy (dst : List UInt8) (src : CStr) (n : Nat) : List UInt8 :=
  src.bytes.take n ++ List.replicate (n - src.length) 0 ++ dst.drop n

theorem strncpy_length {dst : List UInt8} {n : Nat} (src : CStr) (h : n ≤ dst.length) :
    (strncpy dst src n).length = dst.length := by
  simp only [strncpy, CStr.length, List.length_append, List.length_take, List.length_replicate,
    List.length_drop]
  omega

/-- A bounded copy with an explicit terminator holds the source cut at the
bound. -/
theorem ofBuffer_strncpy_set {dst : List UInt8} {n : Nat} (src : CStr) (h : n < dst.length) :
    ofBuffer ((strncpy dst src n).set n 0) = src.take n := by
  obtain ⟨b, tail, hdrop⟩ : ∃ b tail, dst.drop n = b :: tail := by
    cases hd : dst.drop n with
    | nil => simp at hd; omega
    | cons b tail => exact ⟨b, tail, rfl⟩
  have hlen : (src.bytes.take n ++ List.replicate (n - src.length) 0).length = n := by
    simp only [CStr.length, List.length_append, List.length_take, List.length_replicate]
    omega
  have hset : (strncpy dst src n).set n 0
      = src.bytes.take n ++ (List.replicate (n - src.length) 0 ++ 0 :: tail) := by
    rw [strncpy, hdrop, List.set_append_right _ _ (by omega), hlen]
    simp
  rw [hset]
  -- the first NUL is either the padding or the explicit terminator
  cases hpad : n - src.length with
  | zero => simpa using ofBuffer_append_nul (src.take n) tail
  | succ k =>
    simpa [List.replicate_succ] using
      ofBuffer_append_nul (src.take n) (List.replicate k 0 ++ 0 :: tail)

/-- The bytes of `src` written into `dst` from offset `i` on. -/
def writeAt (dst : List UInt8) (i : Nat) (src : List UInt8) : List UInt8 :=
  dst.take i ++ src ++ dst.drop (i + src.length)

/-! ## Length and comparison -/

/-- `strnlen(buf, n)`. -/
def strnlen (buf : List UInt8) (n : Nat) : Nat := (ofBuffer (buf.take n)).length

/-- The byte loop of `strcmp`, on the characters before the terminators. -/
def strcmpBytes : List UInt8 → List UInt8 → Int
  | [], [] => 0
  | [], b :: _ => -(b.toNat : Int)
  | a :: _, [] => a.toNat
  | a :: as, b :: bs => if a = b then strcmpBytes as bs else (a.toNat : Int) - b.toNat

/-- `strcmp(s, t)`, with its sign. -/
def strcmp (s t : CStr) : Int := strcmpBytes s.bytes t.bytes

private theorem toNat_ne_zero {b : UInt8} (h : b ≠ 0) : b.toNat ≠ 0 :=
  fun hb => h (UInt8.toNat_inj.mp (by simpa using hb))

theorem strcmpBytes_eq_zero_iff {as bs : List UInt8} (ha : 0 ∉ as) (hb : 0 ∉ bs) :
    strcmpBytes as bs = 0 ↔ as = bs := by
  induction as, bs using strcmpBytes.induct with
  | case1 => simp [strcmpBytes]
  | case2 b bs =>
    have hb0 : b.toNat ≠ 0 := toNat_ne_zero fun h => hb (by simp [h])
    simp [strcmpBytes, hb0]
  | case3 a as =>
    have ha0 : a.toNat ≠ 0 := toNat_ne_zero fun h => ha (by simp [h])
    simp [strcmpBytes, ha0]
  | case4 a as bs ih =>
    have := ih (by simp_all) (by simp_all)
    simpa [strcmpBytes] using this
  | case5 a as b bs hne =>
    have hn : a.toNat ≠ b.toNat := fun h => hne (UInt8.toNat_inj.mp h)
    simp only [strcmpBytes, hne, if_false, List.cons.injEq, false_and, iff_false]
    omega

theorem strcmp_eq_zero_iff (s t : CStr) : strcmp s t = 0 ↔ s = t := by
  rw [strcmp, strcmpBytes_eq_zero_iff s.nulFree t.nulFree]
  exact ⟨CStr.ext, congrArg CStr.bytes⟩

theorem strcmpBytes_pos_iff {as bs : List UInt8} (ha : 0 ∉ as) :
    0 < strcmpBytes as bs ↔ bs < as := by
  induction as, bs using strcmpBytes.induct with
  | case1 => simp [strcmpBytes]
  | case2 b bs =>
    simp only [strcmpBytes, List.not_lt_nil, iff_false]
    omega
  | case3 a as =>
    have ha0 : a.toNat ≠ 0 := toNat_ne_zero fun h => ha (by simp [h])
    simp only [strcmpBytes, List.nil_lt_cons, iff_true]
    omega
  | case4 a as bs ih =>
    have := ih (by simp_all)
    simpa [strcmpBytes, List.cons_lt_cons_iff] using this
  | case5 a as b bs hne =>
    have hlt : b :: bs < a :: as ↔ b < a := by
      simp [List.cons_lt_cons_iff, Ne.symm hne]
    rw [hlt, UInt8.lt_iff_toNat_lt, strcmpBytes, if_neg hne]
    omega

/-- `strcmp` is positive when the first string is the later one. -/
theorem strcmp_pos_iff (s t : CStr) : 0 < strcmp s t ↔ t.bytes < s.bytes :=
  strcmpBytes_pos_iff s.nulFree

theorem strcmpBytes_append_pos {as bs : List UInt8} {b : UInt8} (hb : b ≠ 0) :
    0 < strcmpBytes (as ++ b :: bs) as := by
  induction as with
  | nil =>
    have := toNat_ne_zero hb
    simp only [List.nil_append, strcmpBytes]
    omega
  | cons a as ih => simpa [strcmpBytes] using ih

/-- Two truncations of one string are the same when the shorter one cuts nothing off. -/
theorem strcmp_take_eq_zero_iff (s : CStr) {m n : Nat} (h : m ≤ n) :
    strcmp (s.take m) (s.take n) = 0 ↔ s.length ≤ m ∨ m = n := by
  rw [strcmp_eq_zero_iff]
  constructor
  · intro heq
    have hlen : (s.bytes.take m).length = (s.bytes.take n).length := congrArg CStr.length heq
    rw [List.length_take, List.length_take] at hlen
    rw [CStr.length]
    omega
  · rintro (hle | rfl)
    · rw [(take_eq_self_iff s m).mpr hle, (take_eq_self_iff s n).mpr (hle.trans h)]
    · rfl

/-- Otherwise the longer one is later. -/
theorem strcmp_take_pos_iff (s : CStr) {m n : Nat} (h : m < n) :
    0 < strcmp (s.take n) (s.take m) ↔ m < s.length := by
  by_cases hle : s.length ≤ m
  · have heq : strcmp (s.take n) (s.take m) = 0 := by
      rw [strcmp_eq_zero_iff, (take_eq_self_iff s m).mpr hle,
        (take_eq_self_iff s n).mpr (hle.trans h.le)]
    simp [heq, hle]
  · have hlt : m < s.length := not_le.mp hle
    have hdrop : s.bytes.take n = s.bytes.take m ++ (s.bytes.drop m).take (n - m) := by
      rw [← List.take_add]
      congr 1
      omega
    obtain ⟨b, bs, hbs⟩ : ∃ b bs, (s.bytes.drop m).take (n - m) = b :: bs := by
      apply List.exists_cons_of_length_pos
      rw [List.length_take, List.length_drop]
      have : m < s.bytes.length := hlt
      omega
    have hb : b ≠ 0 := by
      rintro rfl
      have hmem : (0 : UInt8) ∈ (s.bytes.drop m).take (n - m) := by simp [hbs]
      exact s.nulFree (List.mem_of_mem_drop (List.mem_of_mem_take hmem))
    simp only [hlt, iff_true, strcmp, take_bytes]
    rw [hdrop, hbs]
    exact strcmpBytes_append_pos hb

/-- `tolower` of the C locale. -/
def tolower (b : UInt8) : UInt8 :=
  if 65 ≤ b ∧ b ≤ 90 then b + 32 else b

/-- `strcasecmp(s, t) == 0`. -/
def strcaseEq (s t : CStr) : Bool :=
  s.bytes.map tolower == t.bytes.map tolower

end CStr

/-! # Fixed-size arrays

A `char a[n]`. The length travels with the bytes, so an operation on an array
cannot change its size. -/

/-- A `char` array of `n` bytes. -/
structure CharArray (n : Nat) where
  bytes : List UInt8
  size : bytes.length = n
  deriving DecidableEq

namespace CharArray

variable {n : Nat}

/-- `memset(a, 0, sizeof(a))`, and the initial value of a static array. -/
def zeros (n : Nat) : CharArray n := ⟨List.replicate n 0, List.length_replicate⟩

/-- The array read as a C string. -/
def str (a : CharArray n) : CStr := CStr.ofBuffer a.bytes

/-- `strncpy(a, src, k)` with `k` inside the array. -/
def strncpy (a : CharArray n) (src : CStr) (k : Nat) (h : k ≤ n := by decide) : CharArray n :=
  ⟨CStr.strncpy a.bytes src k, by rw [CStr.strncpy_length src (by rw [a.size]; exact h), a.size]⟩

/-- `a[i] = b`. -/
def set (a : CharArray n) (i : Nat) (b : UInt8) : CharArray n :=
  ⟨a.bytes.set i b, by rw [List.length_set, a.size]⟩

/-- `src` written from offset `i` on. What would lie past the end is cut off. -/
def write (a : CharArray n) (i : Nat) (src : List UInt8) : CharArray n :=
  ⟨(CStr.writeAt a.bytes i src).take n, by
    have := a.size
    simp only [CStr.writeAt, List.length_take, List.length_append, List.length_drop]
    omega⟩

/-- What a write leaves in front of its end. -/
theorem take_write (a : CharArray n) {i : Nat} {src : List UInt8} (h : i + src.length ≤ n) :
    (a.write i src).bytes.take (i + src.length) = a.bytes.take i ++ src := by
  have hlen : (a.bytes.take i ++ src).length = i + src.length := by
    have := a.size
    simp only [List.length_append, List.length_take]
    omega
  simp only [write, CStr.writeAt]
  rw [List.take_take, Nat.min_eq_left h]
  exact List.take_left' hlen

/-- A terminator makes a string of what stands in front of it. -/
theorem str_set_nul (a : CharArray n) {i : Nat} (h : i < n) :
    (a.set i 0).str = CStr.ofBuffer (a.bytes.take i) := by
  have hi : i < a.bytes.length := by rw [a.size]; exact h
  simp only [str, set]
  rw [List.set_eq_take_append_cons_drop, if_pos hi]
  exact CStr.ofBuffer_nul_append _ _

/-- A bounded copy into a zeroed array, with room for a terminator. -/
theorem bytes_strncpy_zeros (src : CStr) {k : Nat} (h : k ≤ n) :
    ((zeros n).strncpy src k h).bytes = (src.take k).bytes ++
      List.replicate (n - (src.take k).length) 0 := by
  have hlen : (src.take k).length = min k src.length := by
    simp [CStr.length, CStr.take]
  have hpad : k - src.length + (n - k) = n - (src.take k).length := by omega
  simp only [strncpy, CStr.strncpy, zeros, List.drop_replicate, List.append_assoc,
    CStr.take_bytes, ← hpad, List.replicate_append_replicate]

/-- The array is a terminated copy of `s`, with nothing behind the terminator. -/
def Holds (a : CharArray n) (s : CStr) : Prop :=
  s.length < n ∧ a.bytes = s.bytes ++ List.replicate (n - s.length) 0

theorem Holds.str {a : CharArray n} {s : CStr} (h : a.Holds s) : a.str = s := by
  rw [CharArray.str, h.2]
  exact CStr.ofBuffer_append_replicate_nul s _

theorem holds_strncpy_zeros (src : CStr) {k : Nat} (h : k < n) :
    ((zeros n).strncpy src k h.le).Holds (src.take k) := by
  refine ⟨?_, bytes_strncpy_zeros src h.le⟩
  simp only [CStr.length, CStr.take_bytes, List.length_take]
  omega

theorem holds_zeros (h : 0 < n) : (zeros n).Holds CStr.empty :=
  ⟨h, by simp [zeros, CStr.empty, CStr.length]⟩

@[simp] theorem str_zeros : (zeros n).str = CStr.empty := CStr.ofBuffer_replicate_nul n

/-- A copy that may fill the array. -/
theorem bytes_strncpy_self (a : CharArray n) (src : CStr) :
    (a.strncpy src n le_rfl).bytes = (src.take n).bytes ++ List.replicate (n - src.length) 0 := by
  have hdrop : a.bytes.drop n = [] := List.drop_of_length_le a.size.le
  simp [strncpy, CStr.strncpy, hdrop]

/-- A bounded copy with an explicit terminator behind it. -/
theorem str_strncpy_set (a : CharArray n) (src : CStr) {k : Nat} (h : k < n) :
    ((a.strncpy src k h.le).set k 0).str = src.take k :=
  CStr.ofBuffer_strncpy_set src (by rw [a.size]; exact h)

/-- `memcpy` to the front of the array, when it fits. -/
def memcpy (a : CharArray n) (src : List UInt8) : Option (CharArray n) :=
  if src.length ≤ n then some (a.write 0 src) else none

theorem memcpy_eq_some {a b : CharArray n} {src : List UInt8} :
    a.memcpy src = some b ↔ src.length ≤ n ∧ a.write 0 src = b := by
  simp [memcpy]

theorem bytes_write_zeros (s : CStr) (h : s.length ≤ n) :
    ((zeros n).write 0 s.bytes).bytes = s.bytes ++ List.replicate (n - s.length) 0 := by
  have hlen : s.bytes.length ≤ n := h
  simp only [write, CStr.writeAt, zeros, List.take_zero, List.nil_append, Nat.zero_add,
    List.drop_replicate]
  apply List.take_of_length_le
  simp only [List.length_append, List.length_replicate]
  omega

/-- A copy without the terminator is terminated by the zeros behind it, if there are any. -/
theorem holds_write_zeros (s : CStr) (h : s.length ≤ n) :
    ((zeros n).write 0 s.bytes).Holds s ↔ s.length < n := by
  simp [Holds, bytes_write_zeros s h]

theorem str_write_zeros (s : CStr) (h : s.length ≤ n) : ((zeros n).write 0 s.bytes).str = s := by
  rw [str, bytes_write_zeros s h]
  exact CStr.ofBuffer_append_replicate_nul s _

/-- A write to the front that fits leaves what stands behind it. -/
theorem bytes_write_front (a : CharArray n) {src : List UInt8} (h : src.length ≤ n) :
    (a.write 0 src).bytes = src ++ a.bytes.drop src.length := by
  have := a.size
  simp only [write, CStr.writeAt, List.take_zero, List.nil_append, Nat.zero_add]
  apply List.take_of_length_le
  simp only [List.length_append, List.length_drop]
  omega

/-- `snprintf(a, n, "%s", src)` -/
def printStr (a : CharArray n) (src : CStr) : CharArray n :=
  a.write 0 ((src.take (n - 1)).bytes ++ [0])

/-- The array holds the string cut to its size, whatever stood in it. -/
theorem str_printStr (a : CharArray n) (src : CStr) (h : 0 < n) :
    (a.printStr src).str = src.take (n - 1) := by
  have hlen : ((src.take (n - 1)).bytes ++ [0]).length ≤ n := by
    simp only [CStr.take_bytes, List.length_append, List.length_take, List.length_singleton]
    omega
  rw [str, printStr, bytes_write_front a hlen, List.append_assoc, List.singleton_append]
  exact CStr.ofBuffer_append_nul _ _

end CharArray
