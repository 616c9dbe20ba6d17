-- SUMMARY: JSON objects of strings and numbers as text, one member a line, and what a parser of C strings makes of such a text.
import HomeNode.Lib.CString
import HomeNode.Lib.Decimal

/-!
# Flat JSON objects

The text of an object whose members are strings and numbers. A string stands in it
as it is, so it must not hold a quote, a backslash or a control character.
-/

namespace FlatJson

inductive Value where
  | string (s : List UInt8)
  | number (n : Nat)
  deriving DecidableEq

abbrev Member := List UInt8 × Value

/-! ## Text -/

def quote (s : List UInt8) : List UInt8 := CStr.ascii "\"" ++ s ++ CStr.ascii "\""

def Value.text : Value → List UInt8
  | .string s => quote s
  | .number n => Decimal.numeral n

/-- A member on a line of its own. -/
def memberText (m : Member) : List UInt8 :=
  CStr.ascii "\n  " ++ quote m.1 ++ CStr.ascii ": " ++ m.2.text

def membersText : List Member → List UInt8
  | [] => []
  | [m] => memberText m
  | m :: ms => memberText m ++ CStr.ascii "," ++ membersText ms

def objectText (ms : List Member) : List UInt8 :=
  CStr.ascii "\x7b" ++ membersText ms ++ CStr.ascii "\n\x7d"

/-! ## Plain values: strings that need no escape, and numbers that an `int` holds -/

def plainByte (b : UInt8) : Bool := 32 ≤ b && b < 128 && b != 34 && b != 92

def Value.plain : Value → Bool
  | .string s => s.all plainByte
  | .number n => n ≤ 2147483647

def plain (ms : List Member) : Bool := ms.all fun m => m.1.all plainByte && m.2.plain

/-! ## Parsers -/

/-- What may stand behind an object. -/
def space (b : UInt8) : Bool := b = 32 || b = 9 || b = 10 || b = 13

/-- `parse` takes flat objects for what they are, whatever blanks stand behind them, and
refuses an object that does not come to its end. -/
structure Parses {β : Type*} (parse : CStr → Option β) (ofMembers : List Member → β) : Prop where
  object : ∀ ms blanks, plain ms → (ms.map Prod.fst).Nodup → blanks.all space →
    parse (CStr.ofBuffer (objectText ms ++ blanks)) = some (ofMembers ms)
  cut : ∀ ms p, plain ms → p <+: objectText ms → p ≠ objectText ms →
    parse (CStr.ofBuffer p) = none

/-- What is left of a text, with its line end, when only `n` bytes are read. -/
theorem Parses.take {β : Type*} {parse : CStr → Option β} {ofMembers : List Member → β}
    (h : Parses parse ofMembers) {ms : List Member} (hplain : plain ms)
    (hkeys : (ms.map Prod.fst).Nodup) (n : Nat) :
    parse (CStr.ofBuffer ((objectText ms ++ [10]).take n)) =
      if (objectText ms).length ≤ n then some (ofMembers ms) else none := by
  rw [List.take_append]
  split
  · next hle =>
    rw [List.take_of_length_le hle]
    apply h.object ms _ hplain hkeys
    have hblank : ([10] : List UInt8).all space := by decide
    rw [List.all_eq_true] at hblank ⊢
    exact fun b hb => hblank b (List.mem_of_mem_take hb)
  · next hlt =>
    have hzero : n - (objectText ms).length = 0 := by omega
    rw [hzero, List.take_zero, List.append_nil]
    apply h.cut ms _ hplain (List.take_prefix n _)
    intro heq
    have hlen := congrArg List.length heq
    rw [List.length_take] at hlen
    omega

/-! ## A parser -/

def skip (bs : List UInt8) : List UInt8 := bs.dropWhile space

def parseString : List UInt8 → Option (List UInt8 × List UInt8)
  | [] => none
  | b :: bs =>
    if b = 34 then
      match bs.dropWhile (· != 34) with
      | [] => none
      | _ :: rest => some (bs.takeWhile (· != 34), rest)
    else none

def digit (b : UInt8) : Bool := 48 ≤ b && b ≤ 57

def digitsValue (ds : List UInt8) : Nat := ds.foldl (fun n b => 10 * n + (b.toNat - 48)) 0

def parseNumber (bs : List UInt8) : Option (Nat × List UInt8) :=
  if bs.takeWhile digit = [] then none
  else some (digitsValue (bs.takeWhile digit), bs.dropWhile digit)

def parseValue (bs : List UInt8) : Option (Value × List UInt8) :=
  if bs.head? = some 34 then (parseString bs).map fun r => (.string r.1, r.2)
  else (parseNumber bs).map fun r => (.number r.1, r.2)

def parseMember (bs : List UInt8) : Option (Member × List UInt8) := do
  let (key, bs) ← parseString (skip bs)
  match skip bs with
  | 58 :: bs =>
    let (value, bs) ← parseValue (skip bs)
    return ((key, value), bs)
  | _ => none

/-- At most `n` members, up to the closing brace. -/
def parseMembers : Nat → List UInt8 → Option (List Member × List UInt8)
  | 0, _ => none
  | n + 1, bs => do
    let (m, bs) ← parseMember bs
    match skip bs with
    | 44 :: bs =>
      let (ms, bs) ← parseMembers n bs
      return (m :: ms, bs)
    | 125 :: bs => return ([m], bs)
    | _ => none

def parseObject (bs : List UInt8) : Option (List Member × List UInt8) :=
  match skip bs with
  | 123 :: bs =>
    match skip bs with
    | 125 :: bs => some ([], bs)
    | _ => parseMembers bs.length bs
  | _ => none

/-! ### What it reads -/

theorem digitsValue_numeral (n : Nat) : digitsValue (Decimal.numeral n) = n := by
  induction n using Nat.strongRecOn with
  | ind n ih =>
    have hdigit : (48 + n % 10).toUInt8.toNat - 48 = n % 10 := by
      have hlt : 48 + n % 10 < 256 := by omega
      simp only [Nat.toUInt8_eq, UInt8.toNat_ofNat', Nat.mod_eq_of_lt hlt]
      omega
    rw [Decimal.numeral_eq, digitsValue, List.foldl_append, List.foldl_cons, List.foldl_nil, hdigit]
    split
    · next hn => simp [Nat.mod_eq_of_lt hn]
    · next hn =>
      have hrest : digitsValue (Decimal.numeral (n / 10)) = n / 10 := ih _ (by omega)
      rw [digitsValue] at hrest
      rw [hrest]
      omega

theorem digit_of_mem_numeral {n : Nat} {b : UInt8} (h : b ∈ Decimal.numeral n) : digit b := by
  induction n using Nat.strongRecOn with
  | ind n ih =>
    have hdigit : ∀ d < 10, digit (48 + d).toUInt8 := by decide
    rw [Decimal.numeral_eq] at h
    rcases List.mem_append.mp h with h | h
    · split at h
      · exact absurd h (by simp)
      · exact ih _ (by omega) h
    · rw [List.mem_singleton.mp h]
      exact hdigit _ (Nat.mod_lt n (by decide))

theorem parseString_quote {s : List UInt8} (h : s.all plainByte) (rest : List UInt8) :
    parseString (quote s ++ rest) = some (s, rest) := by
  have hquote : CStr.ascii "\"" = [34] := rfl
  have hs : ∀ b ∈ s, (b != 34) = true := by
    intro b hb
    have hplain := List.all_eq_true.mp h b hb
    simp only [plainByte, Bool.and_eq_true] at hplain
    exact hplain.1.2
  simp only [quote, hquote, List.append_assoc, List.cons_append, List.nil_append, parseString,
    if_true]
  rw [List.dropWhile_append_of_pos hs, List.takeWhile_append_of_pos hs]
  simp

theorem parseNumber_numeral (n : Nat) {rest : List UInt8} (h : ∀ b ∈ rest.head?, digit b = false) :
    parseNumber (Decimal.numeral n ++ rest) = some (n, rest) := by
  have hdigits : ∀ b ∈ Decimal.numeral n, digit b = true := fun b => digit_of_mem_numeral
  have hne : Decimal.numeral n ≠ [] := List.ne_nil_of_length_pos (Decimal.numeral_length_pos n)
  have hrest : rest.takeWhile digit = [] ∧ rest.dropWhile digit = rest := by
    cases rest with
    | nil => exact ⟨rfl, rfl⟩
    | cons b bs => simp [h b rfl]
  rw [parseNumber, List.takeWhile_append_of_pos hdigits, List.dropWhile_append_of_pos hdigits,
    hrest.1, hrest.2, List.append_nil, if_neg hne, digitsValue_numeral]

theorem parseValue_text {v : Value} (hv : v.plain) {rest : List UInt8}
    (h : ∀ b ∈ rest.head?, digit b = false) : parseValue (v.text ++ rest) = some (v, rest) := by
  cases v with
  | string s =>
    have hhead : ((Value.string s).text ++ rest).head? = some 34 := rfl
    rw [parseValue, if_pos hhead, Value.text, parseString_quote hv]
    rfl
  | number n =>
    have hhead : (Decimal.numeral n ++ rest).head? ≠ some 34 := by
      obtain ⟨b, bs, hb⟩ := List.exists_cons_of_length_pos (Decimal.numeral_length_pos n)
      have hdigit : digit b := digit_of_mem_numeral (n := n) (by rw [hb]; simp)
      rw [hb]
      rintro ⟨⟩
      exact absurd hdigit (by decide)
    rw [parseValue, Value.text, if_neg hhead, parseNumber_numeral n h]
    rfl

theorem parseMember_text {m : Member} (hkey : m.1.all plainByte) (hvalue : m.2.plain)
    {rest : List UInt8} (h : ∀ b ∈ rest.head?, digit b = false) :
    parseMember (memberText m ++ rest) = some (m, rest) := by
  have hline : ∀ r, skip (CStr.ascii "\n  " ++ (quote m.1 ++ r)) = quote m.1 ++ r := fun r => rfl
  have hcolon : ∀ r, skip (CStr.ascii ": " ++ r) = 58 :: 32 :: r := fun r => rfl
  have hblank : ∀ r, skip (32 :: (m.2.text ++ r)) = m.2.text ++ r := by
    intro r
    cases hv : m.2 with
    | string s => rfl
    | number n =>
      obtain ⟨b, bs, hb⟩ := List.exists_cons_of_length_pos (Decimal.numeral_length_pos n)
      have hdigit : digit b := digit_of_mem_numeral (n := n) (by rw [hb]; simp)
      have hspace : space b = false := by
        simp only [digit, Bool.and_eq_true, decide_eq_true_eq, UInt8.le_iff_toNat_le] at hdigit
        simp only [space, Bool.or_eq_false_iff, decide_eq_false_iff_not, ← UInt8.toNat_inj]
        simp at hdigit ⊢
        omega
      rw [Value.text, hb]
      change (b :: (bs ++ r)).dropWhile space = _
      rw [List.dropWhile_cons_of_neg (by simp [hspace])]
      rfl
  simp only [parseMember, memberText, List.append_assoc, hline, parseString_quote hkey,
    Option.bind_eq_bind, Option.bind_some, hcolon, hblank, parseValue_text hvalue h]
  rfl

/-- The members of an object, with the brace that closes it. -/
theorem parseMembers_text {ms : List Member} (hne : ms ≠ []) (hplain : plain ms) {n : Nat}
    (hn : ms.length ≤ n) (rest : List UInt8) :
    parseMembers n (membersText ms ++ (CStr.ascii "\n\x7d" ++ rest)) = some (ms, rest) := by
  induction ms generalizing n with
  | nil => exact absurd rfl hne
  | cons m ms ih =>
    obtain ⟨n, rfl⟩ : ∃ k, n = k + 1 := ⟨n - 1, by simp at hn; omega⟩
    simp only [plain, List.all_cons, Bool.and_eq_true] at hplain
    obtain ⟨⟨hkey, hvalue⟩, hrest⟩ := hplain
    cases ms with
    | nil =>
      have hend : ∀ b ∈ (CStr.ascii "\n\x7d" ++ rest).head?, digit b = false := by
        rintro b ⟨⟩
        decide
      rw [membersText, parseMembers, parseMember_text hkey hvalue hend]
      rfl
    | cons m' ms =>
      have hend : ∀ r, ∀ b ∈ (CStr.ascii "," ++ r).head?, digit b = false := by
        rintro r b ⟨⟩
        decide
      have hcomma : ∀ r, skip (CStr.ascii "," ++ r) = 44 :: r := fun r => rfl
      have hms := ih (by simp) hrest (n := n) (by simpa using hn)
      simp only [membersText, List.append_assoc, parseMembers,
        parseMember_text hkey hvalue (hend _), Option.bind_eq_bind, Option.bind_some, hcomma]
      rw [hms]
      rfl

theorem length_le_membersText (ms : List Member) : ms.length ≤ (membersText ms).length := by
  induction ms with
  | nil => exact Nat.zero_le _
  | cons m ms ih =>
    have hpos : 0 < (memberText m).length := by
      have hline : (CStr.ascii "\n  ").length = 3 := rfl
      simp only [memberText, List.length_append, hline]
      omega
    cases ms with
    | nil =>
      simp only [membersText, List.length_cons, List.length_nil]
      omega
    | cons m' ms =>
      simp only [membersText, List.length_append] at ih ⊢
      simp only [List.length_cons] at ih ⊢
      omega

/-- The parser gets back the members of an object. -/
theorem parseObject_text {ms : List Member} (hplain : plain ms) (rest : List UInt8) :
    parseObject (objectText ms ++ rest) = some (ms, rest) := by
  have hopen : ∀ r, skip (CStr.ascii "\x7b" ++ r) = 123 :: r := fun r => rfl
  simp only [parseObject, objectText, List.append_assoc, hopen]
  cases ms with
  | nil => rfl
  | cons m ms =>
    have hline : ∀ r, skip (CStr.ascii "\n  " ++ r) = skip r := fun r => rfl
    have hkey : ∀ r, skip (quote m.1 ++ r) = 34 :: (m.1 ++ (CStr.ascii "\"" ++ r)) := by
      intro r
      simp only [quote, List.append_assoc]
      rfl
    obtain ⟨r, hr⟩ : ∃ r,
        skip (membersText (m :: ms) ++ (CStr.ascii "\n\x7d" ++ rest)) = 34 :: r := by
      cases ms <;> simp only [membersText, memberText, List.append_assoc, hline, hkey] <;>
        exact ⟨_, rfl⟩
    rw [hr]
    apply parseMembers_text (by simp) hplain
    have hlen := length_le_membersText (m :: ms)
    rw [List.length_append]
    omega

/-! ### What it does with more input -/

/-- A prefix that ends within the list is found in a longer one too. -/
theorem span_append {p : UInt8 → Bool} {bs : List UInt8} (h : bs.dropWhile p ≠ [])
    (more : List UInt8) : (bs ++ more).takeWhile p = bs.takeWhile p ∧
      (bs ++ more).dropWhile p = bs.dropWhile p ++ more := by
  have hlen : (bs.takeWhile p).length ≠ bs.length := by
    intro heq
    apply h
    have hall := congrArg List.length (List.takeWhile_append_dropWhile (p := p) (l := bs))
    rw [List.length_append, heq] at hall
    exact List.length_eq_zero_iff.mp (by omega)
  constructor
  · rw [List.takeWhile_append, if_neg hlen]
  · rw [List.dropWhile_append, if_neg (by simpa using h)]

theorem skip_append {bs : List UInt8} (h : skip bs ≠ []) (more : List UInt8) :
    skip (bs ++ more) = skip bs ++ more :=
  (span_append h more).2

theorem parseString_append {bs s rest : List UInt8} (h : parseString bs = some (s, rest))
    (more : List UInt8) : parseString (bs ++ more) = some (s, rest ++ more) := by
  cases bs with
  | nil => exact absurd h (by simp [parseString])
  | cons b bs =>
    simp only [parseString, List.cons_append] at h ⊢
    split_ifs at h ⊢ with hb
    cases hd : bs.dropWhile (· != 34) with
    | nil => simp [hd] at h
    | cons c tail =>
      have hspan := span_append (by rw [hd]; simp) more
      rw [hd] at h hspan
      obtain ⟨rfl, rfl⟩ := Prod.mk.inj (Option.some.inj h)
      rw [hspan.1, hspan.2]
      rfl

/-- A number ends only where something else stands. -/
theorem parseNumber_append {bs rest : List UInt8} {n : Nat}
    (h : parseNumber bs = some (n, rest)) (hrest : rest ≠ []) (more : List UInt8) :
    parseNumber (bs ++ more) = some (n, rest ++ more) := by
  obtain ⟨hne, heq⟩ := Option.ite_none_left_eq_some.mp h
  obtain ⟨rfl, rfl⟩ := Prod.mk.inj (Option.some.inj heq)
  obtain ⟨htake, hdrop⟩ := span_append hrest more
  rw [parseNumber, htake, hdrop, if_neg hne]

theorem parseValue_append {bs rest : List UInt8} {v : Value} (h : parseValue bs = some (v, rest))
    (hrest : rest ≠ []) (more : List UInt8) : parseValue (bs ++ more) = some (v, rest ++ more) := by
  have hhead : bs.head? = some 34 ↔ (bs ++ more).head? = some 34 := by
    cases bs with
    | nil => exact absurd h (by simp [parseValue, parseNumber])
    | cons b bs => rfl
  rw [parseValue] at h ⊢
  by_cases hb : bs.head? = some 34
  · rw [if_pos hb] at h
    rw [if_pos (hhead.mp hb)]
    obtain ⟨⟨s, r⟩, hs, heq⟩ := Option.map_eq_some_iff.mp h
    obtain ⟨rfl, rfl⟩ := Prod.mk.inj heq
    rw [parseString_append hs]
    rfl
  · rw [if_neg hb] at h
    rw [if_neg (mt hhead.mpr hb)]
    obtain ⟨⟨n, r⟩, hn, heq⟩ := Option.map_eq_some_iff.mp h
    obtain ⟨rfl, rfl⟩ := Prod.mk.inj heq
    rw [parseNumber_append hn hrest]
    rfl

theorem skip_ne_nil_of_parseString {bs : List UInt8} {r : List UInt8 × List UInt8}
    (h : parseString (skip bs) = some r) : skip bs ≠ [] := by
  intro hnil
  rw [hnil] at h
  exact absurd h (by simp [parseString])

theorem parseMember_append {bs rest : List UInt8} {m : Member}
    (h : parseMember bs = some (m, rest)) (hrest : rest ≠ []) (more : List UInt8) :
    parseMember (bs ++ more) = some (m, rest ++ more) := by
  simp only [parseMember, Option.bind_eq_bind, Option.bind_eq_some_iff] at h
  obtain ⟨⟨key, r⟩, hkey, h⟩ := h
  have hskip := skip_ne_nil_of_parseString hkey
  simp only [parseMember, skip_append hskip, parseString_append hkey, Option.bind_eq_bind,
    Option.bind_some]
  split at h
  · next r' hr' =>
    rw [skip_append (by rw [hr']; simp), hr']
    obtain ⟨⟨v, r''⟩, hv, heq⟩ := Option.bind_eq_some_iff.mp h
    obtain ⟨rfl, rfl⟩ := Prod.mk.inj (Option.some.inj heq)
    have hskip' : skip r' ≠ [] := by
      intro hnil
      rw [hnil] at hv
      simp [parseValue, parseNumber] at hv
    simp only [List.cons_append, skip_append hskip', parseValue_append hv hrest, Option.bind_some]
    rfl
  · exact absurd h (by simp)

theorem skip_ne_nil_of_parseMembers {n : Nat} {bs rest : List UInt8} {ms : List Member}
    (h : parseMembers n bs = some (ms, rest)) : skip bs ≠ [] := by
  cases n with
  | zero => exact absurd h (by simp [parseMembers])
  | succ n =>
    simp only [parseMembers, parseMember, Option.bind_eq_bind, Option.bind_eq_some_iff] at h
    obtain ⟨m, ⟨key, hkey, -⟩, -⟩ := h
    exact skip_ne_nil_of_parseString hkey

theorem parseMembers_append {n k : Nat} {bs rest : List UInt8} {ms : List Member}
    (h : parseMembers n bs = some (ms, rest)) (hnk : n ≤ k) (more : List UInt8) :
    parseMembers k (bs ++ more) = some (ms, rest ++ more) := by
  induction n generalizing k bs rest ms with
  | zero => exact absurd h (by simp [parseMembers])
  | succ n ih =>
    obtain ⟨k, rfl⟩ : ∃ j, k = j + 1 := ⟨k - 1, by omega⟩
    simp only [parseMembers, Option.bind_eq_bind, Option.bind_eq_some_iff] at h
    obtain ⟨⟨m, r⟩, hm, h⟩ := h
    have hskip : skip r ≠ [] := by
      intro hnil
      simp [hnil] at h
    have hr : r ≠ [] := by
      rintro rfl
      exact hskip rfl
    simp only [parseMembers, parseMember_append hm hr, Option.bind_eq_bind, Option.bind_some,
      skip_append hskip]
    split at h
    · next r' hr' =>
      obtain ⟨⟨ms', r''⟩, hms, heq⟩ := Option.bind_eq_some_iff.mp h
      obtain ⟨rfl, rfl⟩ := Prod.mk.inj (Option.some.inj heq)
      rw [hr']
      simp only [List.cons_append, ih hms (Nat.le_of_succ_le_succ hnk), Option.bind_some]
      rfl
    · next r' hr' =>
      obtain ⟨rfl, rfl⟩ := Prod.mk.inj (Option.some.inj h)
      rw [hr']
      rfl
    · exact absurd h (by simp)

theorem parseObject_append {bs rest : List UInt8} {ms : List Member}
    (h : parseObject bs = some (ms, rest)) (more : List UInt8) :
    parseObject (bs ++ more) = some (ms, rest ++ more) := by
  unfold parseObject at h ⊢
  split at h
  · next r hr =>
    rw [skip_append (by rw [hr]; simp), hr]
    simp only [List.cons_append]
    split at h
    · next r' hr' =>
      obtain ⟨rfl, rfl⟩ := Prod.mk.inj (Option.some.inj h)
      rw [skip_append (by rw [hr']; simp), hr']
      rfl
    · next hopen =>
      have hskip := skip_ne_nil_of_parseMembers h
      rw [skip_append hskip]
      obtain ⟨b, tail, htail⟩ := List.exists_cons_of_ne_nil hskip
      have hb : b ≠ 125 := by
        rintro rfl
        exact hopen tail htail
      rw [htail, List.cons_append]
      split
      · next heq => exact absurd (List.cons.inj heq).1 hb
      · exact parseMembers_append h (by rw [List.length_append]; omega) more
  · exact absurd h (by simp)

/-! ### The parser of C strings -/

theorem plainByte_ne_zero {b : UInt8} (h : plainByte b) : b ≠ 0 := by
  rintro rfl
  exact absurd h (by decide)

theorem nulFree_quote {s : List UInt8} (h : s.all plainByte) : 0 ∉ quote s := by
  have hs : 0 ∉ s := fun hmem => plainByte_ne_zero (List.all_eq_true.mp h 0 hmem) rfl
  simp [quote, hs, show CStr.ascii "\"" = [34] from rfl]

theorem nulFree_text {v : Value} (h : v.plain) : 0 ∉ v.text := by
  cases v with
  | string s => exact nulFree_quote h
  | number n =>
    intro hmem
    exact absurd (digit_of_mem_numeral hmem) (by decide)

theorem nulFree_memberText {m : Member} (hkey : m.1.all plainByte) (hvalue : m.2.plain) :
    0 ∉ memberText m := by
  have hline : 0 ∉ CStr.ascii "\n  " := by decide
  have hcolon : 0 ∉ CStr.ascii ": " := by decide
  simp [memberText, hline, hcolon, nulFree_quote hkey, nulFree_text hvalue]

theorem nulFree_membersText {ms : List Member} (h : plain ms) : 0 ∉ membersText ms := by
  induction ms with
  | nil => exact List.not_mem_nil
  | cons m ms ih =>
    simp only [plain, List.all_cons, Bool.and_eq_true] at h
    obtain ⟨⟨hkey, hvalue⟩, hrest⟩ := h
    have hm := nulFree_memberText hkey hvalue
    cases ms with
    | nil => exact hm
    | cons m' ms =>
      have hcomma : 0 ∉ CStr.ascii "," := by decide
      simp only [membersText, List.mem_append, not_or]
      exact ⟨⟨hm, hcomma⟩, ih hrest⟩

theorem nulFree_objectText {ms : List Member} (h : plain ms) : 0 ∉ objectText ms := by
  have hopen : 0 ∉ CStr.ascii "\x7b" := by decide
  have hclose : 0 ∉ CStr.ascii "\n\x7d" := by decide
  simp [objectText, hopen, hclose, nulFree_membersText h]

/-- What `parseObject` makes of a C string. -/
def parse {β : Type*} (ofMembers : List Member → β) (s : CStr) : Option β :=
  (parseObject s.bytes).map fun r => ofMembers r.1

theorem ofBuffer_of_nulFree {bs : List UInt8} (h : 0 ∉ bs) : (CStr.ofBuffer bs).bytes = bs :=
  congrArg CStr.bytes (CStr.ofBuffer_bytes ⟨bs, h⟩)

/-- There is such a parser. -/
theorem parses_parse {β : Type*} (ofMembers : List Member → β) :
    Parses (parse ofMembers) ofMembers where
  object ms blanks hplain _ hblanks := by
    have hblank : 0 ∉ blanks := fun hmem =>
      absurd (List.all_eq_true.mp hblanks 0 hmem) (by decide)
    have hnul : 0 ∉ objectText ms ++ blanks := by
      simp [nulFree_objectText hplain, hblank]
    rw [parse, ofBuffer_of_nulFree hnul, parseObject_text hplain]
    rfl
  cut ms p hplain hpre hne := by
    obtain ⟨more, hmore⟩ := hpre
    have hnul : 0 ∉ p := fun hmem =>
      nulFree_objectText hplain (hmore ▸ List.mem_append_left more hmem)
    rw [parse, ofBuffer_of_nulFree hnul]
    cases hparse : parseObject p with
    | none => rfl
    | some r =>
      -- what is parsed in front is parsed in the whole text, which leaves nothing
      have hwhole := parseObject_append hparse more
      have htext := parseObject_text hplain []
      rw [hmore] at hwhole
      rw [List.append_nil, hwhole] at htext
      have hnil : r.2 ++ more = [] := (Prod.mk.inj (Option.some.inj htext)).2
      rw [(List.append_eq_nil_iff.mp hnil).2, List.append_nil] at hmore
      exact absurd hmore hne

end FlatJson
