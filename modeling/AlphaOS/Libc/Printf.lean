import Mathlib.Data.Nat.Digits.Lemmas

set_option relaxedAutoImplicit false
set_option autoImplicit false

/-!
# `printf` of user programs

`printf` of `userspace/libc` interprets its format string character by character. A directive takes
the next argument and writes it; everything else is written as it is. This file follows the
interpreter over format strings of literals and of the four directives it knows, and compares what
it writes with the renderings of the arguments.

## Main definitions

* `AlphaOS.Printf.printf` — the function of the source, as the calls of `write` that it makes.
* `AlphaOS.Printf.Item` — a literal, or a directive with its argument.
* `AlphaOS.Printf.format`, `AlphaOS.Printf.arguments` — the format string and the arguments of a
  list of items.
* `AlphaOS.Printf.render` — what an item should be written as.

## Main results

* `AlphaOS.Printf.printf_eq` — what `printf` writes.
* `AlphaOS.Printf.prints_iff` — it writes the renderings if and only if no `%i` has a negative
  argument.
* `AlphaOS.Printf.prints_nothing` — a negative argument is not written at all.

## Design

A string is the list of its bytes, and the zero byte stands behind them. `va_arg` of another type
than that of the argument is undefined, and has no result here.
-/

namespace AlphaOS

namespace Printf

/-- A character constant. -/
def ch (c : Char) : BitVec 8 := BitVec.ofNat 8 c.toNat

/-- A string that ends with a zero byte. -/
structure CString where
  bytes : List (BitVec 8)
  nonzero : ∀ c ∈ bytes, c ≠ 0

/-- `s[i]`. -/
def CString.get (s : CString) (i : ℕ) : BitVec 8 := s.bytes.getD i 0

/-- The loop of `strlen`, over the memory from the current character on. -/
def strlenLoop : List (BitVec 8) → ℕ → ℕ
  | [], len => len
  | c :: mem, len => if c = 0 then len else strlenLoop mem (len + 1)

/-- `strlen`. -/
def strlen (s : CString) : ℕ := strlenLoop (s.bytes ++ [0]) 0

/-- An argument behind the format string. -/
inductive Arg
  | int (v : BitVec 32)
  | string (s : CString)

/-- A call of `write`. -/
structure Write where
  fd : ℕ
  bytes : List (BitVec 8)

/-- `write(1, …)`. -/
def put (bytes : List (BitVec 8)) : Write := ⟨1, bytes⟩

/-! ## Directives -/

/-- The loop of `%i` that fills `buffer`, from the lowest digit on. -/
def digitLoop (v : ℤ) (buffer : List (BitVec 8)) : List (BitVec 8) :=
  if 0 < v then digitLoop (v.tdiv 10) (buffer ++ [BitVec.ofInt 8 (0x30 + v.tmod 10)]) else buffer
termination_by v.toNat
decreasing_by
  have hdiv : v.tdiv 10 = v / 10 := Int.tdiv_eq_ediv_of_nonneg (by omega)
  omega

/-- The case of `%i`. -/
def writeInt (v : BitVec 32) : List Write :=
  if v.toInt = 0 then [put [ch '0']]
  else (digitLoop v.toInt []).reverse.map fun c => put [c]

/-- The cases of `%x` and `%X`, with the digits of each. -/
def writeHex (digits : List (BitVec 8)) (v : BitVec 32) : List Write :=
  put [ch '0', ch 'x'] ::
    [28, 24, 20, 16, 12, 8, 4, 0].map fun j => put [digits.getD (v.sshiftRight j &&& 0xF).toNat 0]

/-- `hex_digits_lower`. -/
def hexDigitsLower : List (BitVec 8) := "0123456789abcdef".toList.map ch

/-- `hex_digits_upper`. -/
def hexDigitsUpper : List (BitVec 8) := "0123456789ABCDEF".toList.map ch

/-- The case of `%s`. -/
def writeString (s : CString) : List Write := [put (s.bytes.take (strlen s))]

/-- `va_arg(ap, int)`. -/
def vaInt : List Arg → Option (BitVec 32 × List Arg)
  | .int v :: ap => some (v, ap)
  | _ => none

/-- `va_arg(ap, char*)`. -/
def vaString : List Arg → Option (CString × List Arg)
  | .string s :: ap => some (s, ap)
  | _ => none

/-- The `switch` on the character after a `%`: what is written, the arguments left, and by how much
`i` is increased. -/
def directive (c : BitVec 8) (ap : List Arg) : Option (List Write × List Arg × ℕ) :=
  if c = ch 'i' then (vaInt ap).map fun r => (writeInt r.1, r.2, 1)
  else if c = ch 'x' then (vaInt ap).map fun r => (writeHex hexDigitsLower r.1, r.2, 1)
  else if c = ch 'X' then (vaInt ap).map fun r => (writeHex hexDigitsUpper r.1, r.2, 1)
  else if c = ch 's' then (vaString ap).map fun r => (writeString r.1, r.2, 1)
  else some ([], ap, 0)

/-- The body of the loop of `printf`. -/
def body (s : CString) (i : ℕ) (ap : List Arg) : Option (List Write × List Arg × ℕ) :=
  if s.get i = ch '%' then directive (s.get (i + 1)) ap else some ([put [s.get i]], ap, 0)

/-- The loop of `printf`. -/
def loop (s : CString) (len i : ℕ) (ap : List Arg) (writes : List Write) : Option (List Write) :=
  if i < len then
    match body s i ap with
    | none => none
    | some (w, ap, k) => loop s len (i + k + 1) ap (writes ++ w)
  else some writes
termination_by len - i

/-- `printf`. -/
def printf (s : CString) (args : List Arg) : Option (List Write) := loop s (strlen s) 0 args []

/-! ## Items -/

/-- A character that stands for itself. -/
abbrev Literal := { c : BitVec 8 // c ≠ 0 ∧ c ≠ ch '%' }

/-- A literal, or a directive with its argument. -/
inductive Item
  | literal (c : Literal)
  | int (v : BitVec 32)
  | hexLower (v : BitVec 32)
  | hexUpper (v : BitVec 32)
  | string (s : CString)

/-- How the item stands in the format string. -/
def Item.text : Item → List (BitVec 8)
  | .literal c => [c]
  | .int _ => [ch '%', ch 'i']
  | .hexLower _ => [ch '%', ch 'x']
  | .hexUpper _ => [ch '%', ch 'X']
  | .string _ => [ch '%', ch 's']

/-- The argument of the item. -/
def Item.arg : Item → List Arg
  | .literal _ => []
  | .int v => [.int v]
  | .hexLower v => [.int v]
  | .hexUpper v => [.int v]
  | .string s => [.string s]

/-- The texts of items have no zero byte. -/
lemma text_nonzero (items : List Item) : ∀ c ∈ items.flatMap Item.text, c ≠ 0 := by
  intro c hc
  obtain ⟨item, -, hc⟩ := List.mem_flatMap.mp hc
  cases item with
  | literal l =>
    rw [Item.text, List.mem_singleton] at hc
    rw [hc]
    exact l.2.1
  | _ =>
    simp only [Item.text, List.mem_cons, List.not_mem_nil, or_false] at hc
    rcases hc with rfl | rfl <;> decide

/-- The format string of the items. -/
def format (items : List Item) : CString := ⟨items.flatMap Item.text, text_nonzero items⟩

/-- The arguments of the items. -/
def arguments (items : List Item) : List Arg := items.flatMap Item.arg

/-! ## Renderings -/

/-- The decimal numeral of a natural number, without leading zeros. -/
def decimal (n : ℕ) : List (BitVec 8) :=
  if n = 0 then [ch '0'] else (Nat.digits 10 n).reverse.map fun d => BitVec.ofNat 8 (0x30 + d)

/-- The signed decimal numeral of an integer. -/
def signedDecimal (v : ℤ) : List (BitVec 8) :=
  if v < 0 then ch '-' :: decimal v.natAbs else decimal v.natAbs

/-- The eight hexadecimal digits of a 32-bit value, the highest one first. -/
def hexadecimal (digits : List (BitVec 8)) (v : BitVec 32) : List (BitVec 8) :=
  [7, 6, 5, 4, 3, 2, 1, 0].map fun k => digits.getD (v.toNat / 16 ^ k % 16) 0

/-- What the item should be written as. -/
def render : Item → List (BitVec 8)
  | .literal c => [c]
  | .int v => signedDecimal v.toInt
  | .hexLower v => [ch '0', ch 'x'] ++ hexadecimal hexDigitsLower v
  | .hexUpper v => [ch '0', ch 'x'] ++ hexadecimal hexDigitsUpper v
  | .string s => s.bytes

/-- The calls write `bytes` to the descriptor `1`, and nothing else. -/
def Prints (writes : List Write) (bytes : List (BitVec 8)) : Prop :=
  (∀ w ∈ writes, w.fd = 1) ∧ writes.flatMap Write.bytes = bytes

/-- What `printf` writes for an item. -/
def writesOf : Item → List Write
  | .literal c => [put [c]]
  | .int v => writeInt v
  | .hexLower v => writeHex hexDigitsLower v
  | .hexUpper v => writeHex hexDigitsUpper v
  | .string s => writeString s

/-! ## The loop -/

/-- `strlen` counts the bytes before the zero byte. -/
lemma strlenLoop_eq {bytes : List (BitVec 8)} (h : ∀ c ∈ bytes, c ≠ 0) (len : ℕ) :
    strlenLoop (bytes ++ [0]) len = len + bytes.length := by
  induction bytes generalizing len with
  | nil => simp [strlenLoop]
  | cons c bytes ih =>
    rw [List.cons_append, strlenLoop, if_neg (h c List.mem_cons_self),
      ih fun c hc => h c (List.mem_cons_of_mem _ hc), List.length_cons]
    omega

/-- `strlen`. -/
@[simp] lemma strlen_eq (s : CString) : strlen s = s.bytes.length := by
  rw [strlen, strlenLoop_eq s.nonzero, Nat.zero_add]

/-- A character of a string in two parts. -/
lemma get_append {s : CString} {pre rest : List (BitVec 8)} (h : s.bytes = pre ++ rest) (k : ℕ) :
    s.get (pre.length + k) = rest.getD k 0 := by
  rw [CString.get, h, List.getD_eq_getElem?_getD, List.getElem?_append_right (by omega),
    Nat.add_sub_cancel_left, List.getD_eq_getElem?_getD]

/-- **One round of the loop** handles one item. -/
lemma body_item {s : CString} {pre rest : List (BitVec 8)} {item : Item}
    (h : s.bytes = pre ++ (item.text ++ rest)) (ap : List Arg) :
    ∃ k, item.text.length = k + 1 ∧
      body s pre.length (item.arg ++ ap) = some (writesOf item, ap, k) := by
  have hfirst := get_append h 0
  have hsecond := get_append h 1
  rw [Nat.add_zero] at hfirst
  cases item with
  | literal c =>
    refine ⟨0, rfl, ?_⟩
    rw [body, hfirst]
    exact if_neg c.2.2
  | int v =>
    refine ⟨1, rfl, ?_⟩
    rw [body, hfirst, hsecond]
    rfl
  | hexLower v =>
    refine ⟨1, rfl, ?_⟩
    rw [body, hfirst, hsecond]
    rfl
  | hexUpper v =>
    refine ⟨1, rfl, ?_⟩
    rw [body, hfirst, hsecond]
    rfl
  | string v =>
    refine ⟨1, rfl, ?_⟩
    rw [body, hfirst, hsecond]
    rfl

/-- **The loop** handles the items one after the other. -/
lemma loop_items {s : CString} (items : List Item) (pre : List (BitVec 8))
    (h : s.bytes = pre ++ items.flatMap Item.text) (writes : List Write) :
    loop s s.bytes.length pre.length (arguments items) writes =
      some (writes ++ items.flatMap writesOf) := by
  induction items generalizing pre writes with
  | nil =>
    rw [loop, if_neg (by simp [h])]
    simp
  | cons item items ih =>
    rw [List.flatMap_cons] at h
    obtain ⟨k, hlen, hbody⟩ := body_item h (arguments items)
    have hlt : pre.length < s.bytes.length := by
      rw [h, List.length_append, List.length_append]
      omega
    have hargs : arguments (item :: items) = item.arg ++ arguments items := List.flatMap_cons
    have hnext := ih (pre ++ item.text) (by rw [h, List.append_assoc]) (writes ++ writesOf item)
    rw [List.length_append, hlen, ← Nat.add_assoc] at hnext
    rw [loop, if_pos hlt, hargs, hbody]
    simp only
    rw [hnext, List.flatMap_cons, List.append_assoc]

/-- **What `printf` writes.** -/
theorem printf_eq (items : List Item) :
    printf (format items) (arguments items) = some (items.flatMap writesOf) := by
  have hloop := loop_items (s := format items) items [] rfl []
  rw [printf, strlen_eq]
  exact hloop

/-! ## Numerals -/

/-- The loop of `%i` on a number that is not negative fills the buffer with its digits. -/
lemma digitLoop_eq (n : ℕ) (buffer : List (BitVec 8)) :
    digitLoop n buffer = buffer ++ (Nat.digits 10 n).map fun d => BitVec.ofNat 8 (0x30 + d) := by
  induction n using Nat.strong_induction_on generalizing buffer with
  | _ n ih =>
    rw [digitLoop]
    by_cases hn : n = 0
    · simp [hn]
    · have hdiv : (n : ℤ).tdiv 10 = ((n / 10 : ℕ) : ℤ) := rfl
      have hmod : (0x30 : ℤ) + (n : ℤ).tmod 10 = ((0x30 + n % 10 : ℕ) : ℤ) := by
        rw [Int.tmod_eq_emod_of_nonneg (by omega)]
        omega
      rw [if_pos (by omega), hdiv, hmod, ih (n / 10) (by omega), BitVec.ofInt_natCast,
        Nat.digits_def' (by omega) (by omega : 0 < n), List.map_cons, ← List.append_cons]

/-- The loop of `%i` does nothing on a negative number. -/
lemma digitLoop_neg {v : ℤ} (h : v < 0) (buffer : List (BitVec 8)) :
    digitLoop v buffer = buffer := by
  rw [digitLoop, if_neg (by omega)]

/-- Single characters, written one after the other. -/
lemma flatMap_put (l : List (BitVec 8)) : (l.map fun c => put [c]).flatMap Write.bytes = l := by
  induction l with
  | nil => rfl
  | cons c l ih =>
    rw [List.map_cons, List.flatMap_cons, ih]
    rfl

/-- `%i` writes the numeral of an argument that is not negative. -/
lemma writeInt_of_nonneg {v : BitVec 32} (h : 0 ≤ v.toInt) :
    (writeInt v).flatMap Write.bytes = signedDecimal v.toInt := by
  obtain ⟨n, hn⟩ := Int.eq_ofNat_of_zero_le h
  have hneg : ¬v.toInt < 0 := by omega
  rw [writeInt, signedDecimal, if_neg hneg, decimal, hn, Int.natAbs_natCast]
  by_cases hzero : n = 0
  · rw [if_pos (show (n : ℤ) = 0 by omega), if_pos hzero]
    rfl
  · rw [if_neg (show (n : ℤ) ≠ 0 by omega), if_neg hzero, flatMap_put, digitLoop_eq,
      List.nil_append, List.map_reverse]

/-- `%i` writes nothing for a negative argument. -/
lemma writeInt_of_neg {v : BitVec 32} (h : v.toInt < 0) : writeInt v = [] := by
  rw [writeInt, if_neg (by omega), digitLoop_neg h]
  rfl

/-- Four bits of a shifted value: the sign that the shift brings in does not reach them. -/
lemma toNat_nibble (v : BitVec 32) {j : ℕ} (hj : j ≤ 28) :
    (v.sshiftRight j &&& 0xF).toNat = v.toNat / 2 ^ j % 16 := by
  have hsame : v.sshiftRight j &&& 0xF = v >>> j &&& 0xF := by
    apply BitVec.eq_of_getLsbD_eq
    intro i hi
    rw [BitVec.getLsbD_and, BitVec.getLsbD_and, BitVec.getLsbD_sshiftRight,
      BitVec.getLsbD_ushiftRight]
    by_cases hlow : i < 4
    · rw [if_pos (by omega), decide_eq_false (by omega), Bool.not_false, Bool.true_and]
    · have hmask : (0xF#32).getLsbD i = false := by
        rw [BitVec.getLsbD_ofNat, Nat.testBit_lt_two_pow]
        · simp
        · calc 15 < 2 ^ 4 := by omega
            _ ≤ 2 ^ i := Nat.pow_le_pow_right (by omega) (by omega)
      exact (congrArg _ hmask).trans ((Bool.and_false _).trans
        ((Bool.and_false _).symm.trans (congrArg _ hmask.symm)))
  rw [hsame, BitVec.toNat_and, BitVec.toNat_ushiftRight, Nat.shiftRight_eq_div_pow]
  exact Nat.and_two_pow_sub_one_eq_mod _ 4

/-- `%x` and `%X` write the eight digits. -/
lemma writeHex_eq (digits : List (BitVec 8)) (v : BitVec 32) :
    (writeHex digits v).flatMap Write.bytes = [ch '0', ch 'x'] ++ hexadecimal digits v := by
  simp only [writeHex, List.map_cons, List.map_nil, List.flatMap_cons, List.flatMap_nil, put,
    hexadecimal,
    toNat_nibble v (show 28 ≤ 28 by omega), toNat_nibble v (show 24 ≤ 28 by omega),
    toNat_nibble v (show 20 ≤ 28 by omega), toNat_nibble v (show 16 ≤ 28 by omega),
    toNat_nibble v (show 12 ≤ 28 by omega), toNat_nibble v (show 8 ≤ 28 by omega),
    toNat_nibble v (show 4 ≤ 28 by omega), toNat_nibble v (show 0 ≤ 28 by omega)]
  rfl

/-! ## All items -/

/-- An item with a negative argument of `%i`. -/
def Item.Negative : Item → Prop
  | .int v => v.toInt < 0
  | _ => False

/-- Every call writes to the descriptor `1`. -/
lemma fd_writesOf (item : Item) : ∀ w ∈ writesOf item, w.fd = 1 := by
  intro w hw
  cases item with
  | literal c =>
    rw [List.mem_singleton.mp hw]
    rfl
  | int v =>
    rw [writesOf, writeInt] at hw
    split_ifs at hw
    · rw [List.mem_singleton.mp hw]
      rfl
    · obtain ⟨c, -, rfl⟩ := List.mem_map.mp hw
      rfl
  | hexLower v =>
    rcases List.mem_cons.mp hw with rfl | hw
    · rfl
    · obtain ⟨j, -, rfl⟩ := List.mem_map.mp hw
      rfl
  | hexUpper v =>
    rcases List.mem_cons.mp hw with rfl | hw
    · rfl
    · obtain ⟨j, -, rfl⟩ := List.mem_map.mp hw
      rfl
  | string s =>
    rw [List.mem_singleton.mp hw]
    rfl

/-- An item without a negative argument is written as it should be. -/
lemma writesOf_eq_render {item : Item} (h : ¬item.Negative) :
    (writesOf item).flatMap Write.bytes = render item := by
  cases item with
  | literal c => rfl
  | int v => exact writeInt_of_nonneg (not_lt.mp h)
  | hexLower v => exact writeHex_eq _ v
  | hexUpper v => exact writeHex_eq _ v
  | string s => simp [writesOf, writeString, put, render]

/-- An item with a negative argument is not written. -/
lemma writesOf_of_negative {item : Item} (h : item.Negative) :
    (writesOf item).flatMap Write.bytes = [] ∧ render item ≠ [] := by
  cases item with
  | int v =>
    have hneg : v.toInt < 0 := h
    rw [writesOf, writeInt_of_neg hneg, render, signedDecimal, if_pos hneg]
    exact ⟨rfl, List.cons_ne_nil _ _⟩
  | literal c => exact h.elim
  | hexLower v => exact h.elim
  | hexUpper v => exact h.elim
  | string s => exact h.elim

/-- What is written for an item is no longer than it should be. -/
lemma length_writesOf_le (item : Item) :
    ((writesOf item).flatMap Write.bytes).length ≤ (render item).length := by
  by_cases h : item.Negative
  · rw [(writesOf_of_negative h).1]
    exact Nat.zero_le _
  · rw [writesOf_eq_render h]

/-- What is written for all items is no longer than it should be. -/
lemma length_flatMap_writesOf_le (items : List Item) :
    ((items.flatMap writesOf).flatMap Write.bytes).length ≤ (items.flatMap render).length := by
  induction items with
  | nil => rfl
  | cons item items ih =>
    have hitem := length_writesOf_le item
    rw [List.flatMap_cons, List.flatMap_append, List.flatMap_cons, List.length_append,
      List.length_append]
    omega

/-- Something is missing when an argument is negative. -/
lemma length_lt_of_negative {items : List Item} {item : Item} (hmem : item ∈ items)
    (h : item.Negative) :
    ((items.flatMap writesOf).flatMap Write.bytes).length < (items.flatMap render).length := by
  induction items with
  | nil => exact absurd hmem List.not_mem_nil
  | cons first items ih =>
    have hfirst := length_writesOf_le first
    rw [List.flatMap_cons, List.flatMap_append, List.flatMap_cons, List.length_append,
      List.length_append]
    rcases List.mem_cons.mp hmem with rfl | hmem
    · obtain ⟨hnil, hne⟩ := writesOf_of_negative h
      have hrest := length_flatMap_writesOf_le items
      have hpos := List.length_pos_iff.mpr hne
      rw [hnil, List.length_nil]
      omega
    · have hrest := ih hmem
      omega

/-- The renderings, when no argument is negative. -/
lemma flatMap_writesOf {items : List Item} (h : ∀ item ∈ items, ¬item.Negative) :
    (items.flatMap writesOf).flatMap Write.bytes = items.flatMap render := by
  induction items with
  | nil => rfl
  | cons item items ih =>
    rw [List.flatMap_cons, List.flatMap_append, List.flatMap_cons,
      writesOf_eq_render (h item List.mem_cons_self),
      ih fun item hitem => h item (List.mem_cons_of_mem _ hitem)]

/-- **`printf` writes the renderings if and only if no `%i` has a negative argument.** For every
format string of literals and directives with matching arguments `printf` returns, and what it has
written to the descriptor `1` is the concatenation of the literals and the renderings of the
arguments exactly when every argument of a `%i` is at least zero.

**Proof sketch.** Induction on the items gives what `printf` writes. It is the rendering of every
item but a negative `%i`, of which it writes nothing, so then it is shorter. -/
theorem prints_iff (items : List Item) :
    ∃ writes, printf (format items) (arguments items) = some writes ∧
      (Prints writes (items.flatMap render) ↔ ∀ v, Item.int v ∈ items → 0 ≤ v.toInt) := by
  refine ⟨_, printf_eq items, ?_, fun h =>
    ⟨fun w hw => ?_, flatMap_writesOf fun item hitem hneg => ?_⟩⟩
  · rintro ⟨-, heq⟩ v hv
    by_contra hneg
    have hlt := length_lt_of_negative hv (not_le.mp hneg)
    rw [heq] at hlt
    exact lt_irrefl _ hlt
  · obtain ⟨item, -, hw⟩ := List.mem_flatMap.mp hw
    exact fd_writesOf item w hw
  · cases item with
    | int v => exact absurd (h v hitem) (not_le.mpr hneg)
    | literal c => exact hneg
    | hexLower v => exact hneg
    | hexUpper v => exact hneg
    | string s => exact hneg

/-- **A negative argument is not written.** `printf("%i", -5)` makes no call of `write`. -/
theorem prints_nothing :
    printf (format [.int (-5)]) (arguments [.int (-5)]) = some [] ∧
      [Item.int (-5)].flatMap render = [ch '-', ch '5'] ∧
      ¬∀ items, ∃ writes, printf (format items) (arguments items) = some writes ∧
        Prints writes (items.flatMap render) := by
  have hnone : printf (format [.int (-5)]) (arguments [.int (-5)]) = some [] := by
    rw [printf_eq, List.flatMap_singleton, writesOf, writeInt_of_neg (by decide)]
  have hrender : [Item.int (-5)].flatMap render = [ch '-', ch '5'] := by
    rw [List.flatMap_singleton, render, signedDecimal, if_pos (by decide)]
    simp [decimal, ch]
  refine ⟨hnone, hrender, fun hall => ?_⟩
  obtain ⟨writes, hsome, -, hbytes⟩ := hall [.int (-5)]
  rw [hnone] at hsome
  rw [← Option.some.inj hsome, hrender] at hbytes
  cases hbytes

end Printf

end AlphaOS
