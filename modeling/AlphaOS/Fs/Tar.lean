import Mathlib.Data.Nat.Digits.Lemmas
import Mathlib.Order.Bounds.Defs
import AlphaOS.Lib.Bits

set_option relaxedAutoImplicit false
set_option autoImplicit false

/-!
# Headers of the tar archive

`tar_parse_octal` of `misc.h` reads the number in a field of a tar header, and `init_fs` uses it to
go from one header to the next. The function skips spaces and then takes octal digits, until it
comes to another character or to the end of the field.

## Main definitions

* `AlphaOS.Tar.tarParseOctal` — the function of the source, with the indices it reads.
* `AlphaOS.Tar.nextHeader` — the address that `init_fs` computes.
* `AlphaOS.Tar.octalRun`, `AlphaOS.Tar.octalValue` — the digits of a field and their value.
* `AlphaOS.Tar.UstarSize` — a size field that encodes a number.

## Main results

* `AlphaOS.Tar.tarParseOctal_spec` — the function returns the octal value of the field, and reads
  the field only.
* `AlphaOS.Tar.tar_sizes` — with it, the sizes of files are read as they are written, and the next
  header is at the first block after the data.

## Design

`char` is signed: a byte from `128` on is a negative number, and is less than `'0'`. A field is what
stands in memory from its first byte on, so that a read behind the field would be seen.
-/

namespace AlphaOS

namespace Tar

variable {field : ℕ → BitVec 8} {lo n v : ℕ}

/-! ## `tar_parse_octal` -/

/-- `value`, and the indices read so far. -/
structure Scan where
  value : BitVec 64
  reads : List ℕ

/-- The test of the first loop, at the index `i`: the loop is left at a character that is no space.
-/
def skipStep (field : ℕ → BitVec 8) (i : ℕ) (reads : List ℕ) : (ℕ × List ℕ) ⊕ List ℕ :=
  if field i = 0x20 then .inr (reads ++ [i]) else .inl (i, reads ++ [i])

/-- The first loop, from the index `lo` on, with `n` characters left: where it stops. -/
def skipSpaces (field : ℕ → BitVec 8) (lo n : ℕ) (reads : List ℕ) : ℕ × List ℕ :=
  (Loop.forRange (skipStep field) lo n reads).elim id fun reads => (lo + n, reads)

/-- The body of the second loop, at the index `i`. -/
def digitStep (field : ℕ → BitVec 8) (i : ℕ) (s : Scan) : Scan ⊕ Scan :=
  if field i = 0 ∨ field i = 0x20 then .inl { s with reads := s.reads ++ [i] }
  else if (field i).toInt < 0x30 ∨ 0x37 < (field i).toInt then .inl { s with
    reads := s.reads ++ [i] }
  else .inr ⟨s.value <<< 3 ||| BitVec.ofInt 64 ((field i).toInt - 0x30), s.reads ++ [i]⟩

/-- The second loop, from the index `lo` on, with `n` characters left. -/
def takeDigits (field : ℕ → BitVec 8) (lo n : ℕ) (s : Scan) : Scan :=
  (Loop.forRange (digitStep field) lo n s).elim id id

/-- `tar_parse_octal`. -/
def tarParseOctal (field : ℕ → BitVec 8) (length : ℕ) : Scan :=
  let (i, reads) := skipSpaces field 0 length []
  takeDigits field i (length - i) ⟨0, reads⟩

/-! ## `init_fs` -/

/-- The sizes of the fields of `tar_header`, of which `file_size` is the fifth. -/
def headerFields : List ℕ := [100, 8, 8, 8, 12, 12, 8, 1, 100, 255]

/-- `sizeof(tar_header)`. -/
def sizeofHeader : ℕ := headerFields.sum

/-- `th->file_size`. -/
def fileSizeField (mem : ℕ → BitVec 8) (th i : ℕ) : BitVec 8 :=
  mem ((th + (headerFields.take 4).sum + i) % 2 ^ 32)

/-- `file_size` of `init_fs`, for the header at `th`. -/
def fileSize (mem : ℕ → BitVec 8) (th : ℕ) : BitVec 64 :=
  (tarParseOctal (fileSizeField mem th) 12).value

/-- `th` of `init_fs` after the first header. -/
def nextHeader (mem : ℕ → BitVec 8) (th : ℕ) : ℕ :=
  ((th + sizeofHeader) % 2 ^ 32 + ((fileSize mem th + 511) &&& ~~~511#64).toNat) % 2 ^ 32

/-! ## Numbers in fields -/

/-- The `n` bytes of a field from the index `lo` on. -/
def fieldBytes (field : ℕ → BitVec 8) (lo n : ℕ) : List (BitVec 8) := (List.range' lo n).map field

/-- A character `'0'` to `'7'`. -/
def isOctal (c : BitVec 8) : Bool := decide (0x30 ≤ c.toNat ∧ c.toNat ≤ 0x37)

/-- The digits after the leading spaces. -/
def octalRun (bytes : List (BitVec 8)) : List (BitVec 8) :=
  (bytes.dropWhile (· == 0x20)).takeWhile isOctal

/-- The number that a row of octal digits stands for. -/
def octalValue (run : List (BitVec 8)) : ℕ :=
  Nat.ofDigits 8 (run.reverse.map fun c => c.toNat - 0x30)

/-- The octal digits of a number, without leading zeros. -/
def octalDigits (n : ℕ) : List (BitVec 8) :=
  (Nat.digits 8 n).reverse.map fun d => BitVec.ofNat 8 (0x30 + d)

/-- The field of twelve bytes encodes `n`: some spaces, some zeros, the digits, of which there is
one at least, and a space or a zero byte. -/
def UstarSize (n : ℕ) (field : ℕ → BitVec 8) : Prop :=
  ∃ spaces zeros last rest,
    fieldBytes field 0 12 = List.replicate spaces 0x20 ++
      (List.replicate zeros 0x30 ++ octalDigits n ++ last :: rest) ∧
    (last = 0 ∨ last = 0x20) ∧ (n = 0 → 0 < zeros)

/-- The bytes of a field, the first one apart. -/
lemma fieldBytes_succ : fieldBytes field lo (n + 1) = field lo :: fieldBytes field (lo + 1) n := by
  rw [fieldBytes, List.range'_succ, List.map_cons]
  rfl

/-- A digit behind others. -/
lemma octalValue_concat (run : List (BitVec 8)) (c : BitVec 8) :
    octalValue (run ++ [c]) = 8 * octalValue run + (c.toNat - 0x30) := by
  simp only [octalValue, List.reverse_append, List.reverse_singleton, List.singleton_append,
    List.map_cons,
    Nat.ofDigits_cons]
  exact Nat.add_comm _ _

/-! ## The loops -/

/-- **The first loop** stops where the field goes on without its leading spaces. -/
lemma skipSpaces_spec (field : ℕ → BitVec 8) (lo n : ℕ) (reads : List ℕ)
    (hreads : ∀ i ∈ reads, i < lo) :
    (skipSpaces field lo n reads).1 ≤ lo + n ∧
      fieldBytes field (skipSpaces field lo n reads).1 (lo + n - (skipSpaces field lo n reads).1) =
        (fieldBytes field lo n).dropWhile (· == 0x20) ∧
      ∀ i ∈ (skipSpaces field lo n reads).2, i < lo + n := by
  induction n generalizing lo reads with
  | zero => exact ⟨le_rfl, by simp [skipSpaces, Loop.forRange, fieldBytes], hreads⟩
  | succ n ih =>
    have hreads' : ∀ i ∈ reads ++ [lo], i < lo + 1 := by
      intro i hi
      rcases List.mem_append.mp hi with hi | hi
      · exact Nat.lt_succ_of_lt (hreads i hi)
      · rw [List.mem_singleton.mp hi]
        exact Nat.lt_succ_self lo
    by_cases hc : field lo = 0x20
    · have hnext :
        skipSpaces field lo (n + 1) reads = skipSpaces field (lo + 1) n (reads ++ [lo]) := by
        simp only [skipSpaces, Loop.forRange, skipStep, if_pos hc,
          show lo + 1 + n = lo + (n + 1) by omega]
      rw [hnext, fieldBytes_succ, List.dropWhile_cons_of_pos (by simpa using hc),
        show lo + (n + 1) = lo + 1 + n by omega]
      exact ih _ _ hreads'
    · have hstop : skipSpaces field lo (n + 1) reads = (lo, reads ++ [lo]) := by
        simp only [skipSpaces, Loop.forRange, skipStep, if_neg hc, Sum.elim_inl, id]
      rw [hstop, fieldBytes_succ, List.dropWhile_cons_of_neg (by simpa using hc), ← fieldBytes_succ]
      refine ⟨by omega, by rw [Nat.add_sub_cancel_left], fun i hi => ?_⟩
      have hlt := hreads' i hi
      omega

/-- The characters that the second loop takes. -/
lemma isOctal_iff (c : BitVec 8) :
    isOctal c = true ↔ ¬(c = 0 ∨ c = 0x20) ∧ ¬(c.toInt < 0x30 ∨ 0x37 < c.toInt) := by
  revert c
  decide

/-- A digit is put behind the value. -/
lemma shiftLeft_or_digit {c : BitVec 8} (hc : isOctal c = true) (v : ℕ) :
    BitVec.ofNat 64 v <<< 3 ||| BitVec.ofInt 64 (c.toInt - 0x30) =
      BitVec.ofNat 64 (8 * v + (c.toNat - 0x30)) := by
  have hrange : 0x30 ≤ c.toNat ∧ c.toNat ≤ 0x37 := of_decide_eq_true hc
  have hdigit : c.toInt - 0x30 = ((c.toNat - 0x30 : ℕ) : ℤ) := by
    rw [BitVec.toInt_eq_toNat_of_lt (by omega)]
    omega
  obtain ⟨d, hd⟩ : ∃ d, d = c.toNat - 0x30 := ⟨_, rfl⟩
  have hlt : d < 2 ^ 3 := by omega
  rw [hdigit, BitVec.ofInt_natCast, ← hd]
  apply BitVec.eq_of_toNat_eq
  simp only [BitVec.toNat_or, BitVec.toNat_shiftLeft, BitVec.toNat_ofNat, Nat.shiftLeft_eq]
  have hhigh : v % 2 ^ 64 * 2 ^ 3 % 2 ^ 64 = 2 ^ 3 * (v % 2 ^ 61) := by omega
  rw [hhigh, Nat.mod_eq_of_lt (by omega : d < 2 ^ 64), ← Nat.two_pow_add_eq_or_of_lt hlt]
  omega

/-- **The second loop** takes the digits up to the first other character. -/
lemma takeDigits_spec (field : ℕ → BitVec 8) (lo n : ℕ) (run : List (BitVec 8)) (reads : List ℕ)
    (hreads : ∀ i ∈ reads, i < lo + n) :
    (takeDigits field lo n ⟨BitVec.ofNat 64 (octalValue run), reads⟩).value =
        BitVec.ofNat 64 (octalValue (run ++ (fieldBytes field lo n).takeWhile isOctal)) ∧
      ∀ i ∈ (takeDigits field lo n ⟨BitVec.ofNat 64 (octalValue run), reads⟩).reads,
        i < lo + n := by
  induction n generalizing lo run reads with
  | zero => exact ⟨by simp [takeDigits, Loop.forRange, fieldBytes], hreads⟩
  | succ n ih =>
    have hreads' : ∀ i ∈ reads ++ [lo], i < lo + (n + 1) := by
      intro i hi
      rcases List.mem_append.mp hi with hi | hi
      · exact hreads i hi
      · rw [List.mem_singleton.mp hi]
        omega
    by_cases hc : isOctal (field lo) = true
    · obtain ⟨hend, hrange⟩ := (isOctal_iff _).mp hc
      have hnext : takeDigits field lo (n + 1) ⟨BitVec.ofNat 64 (octalValue run), reads⟩ =
          takeDigits field (lo + 1) n
            ⟨BitVec.ofNat 64 (octalValue (run ++ [field lo])), reads ++ [lo]⟩ := by
        simp only [takeDigits, Loop.forRange, digitStep, if_neg hend, if_neg hrange,
          shiftLeft_or_digit hc, octalValue_concat]
      rw [show lo + (n + 1) = lo + 1 + n by omega] at hreads' ⊢
      rw [hnext, fieldBytes_succ, List.takeWhile_cons_of_pos hc]
      have hrest := ih (lo + 1) (run ++ [field lo]) (reads ++ [lo]) hreads'
      rwa [← List.append_cons] at hrest
    · have hstop : takeDigits field lo (n + 1) ⟨BitVec.ofNat 64 (octalValue run), reads⟩ =
          ⟨BitVec.ofNat 64 (octalValue run), reads ++ [lo]⟩ := by
        simp only [takeDigits, Loop.forRange, digitStep]
        by_cases hend : field lo = 0 ∨ field lo = 0x20
        · rw [if_pos hend]
          rfl
        · have hrange : (field lo).toInt < 0x30 ∨ 0x37 < (field lo).toInt := by
            by_contra hrange
            exact hc ((isOctal_iff _).mpr ⟨hend, hrange⟩)
          rw [if_neg hend, if_pos hrange]
          rfl
      rw [hstop, fieldBytes_succ, List.takeWhile_cons_of_neg hc, List.append_nil]
      exact ⟨rfl, hreads'⟩

/-- **What `tar_parse_octal` returns.** -/
theorem tarParseOctal_spec (field : ℕ → BitVec 8) (length : ℕ) :
    (tarParseOctal field length).value =
      BitVec.ofNat 64 (octalValue (octalRun (fieldBytes field 0 length))) ∧
      ∀ i ∈ (tarParseOctal field length).reads, i < length := by
  obtain ⟨hle, hdrop, hreads⟩ := skipSpaces_spec field 0 length [] (by simp)
  rw [Nat.zero_add] at hle hdrop hreads
  have hspec := takeDigits_spec field (skipSpaces field 0 length []).1
    (length - (skipSpaces field 0 length []).1) [] (skipSpaces field 0 length []).2
    (by rwa [Nat.add_sub_cancel' hle])
  rw [hdrop, Nat.add_sub_cancel' hle] at hspec
  exact hspec

/-! ## Sizes of files -/

/-- Every octal digit is one. -/
lemma isOctal_octalDigits {c : BitVec 8} (hc : c ∈ octalDigits n) : isOctal c = true := by
  obtain ⟨d, hd, rfl⟩ := List.mem_map.mp hc
  have hlt : d < 8 := Nat.digits_lt_base (by omega) (List.mem_reverse.mp hd)
  refine decide_eq_true ?_
  rw [BitVec.toNat_ofNat]
  omega

/-- The digits of a number, with zeros before them, stand for the number. -/
lemma octalValue_octalDigits (zeros n : ℕ) :
    octalValue (List.replicate zeros 0x30 ++ octalDigits n) = n := by
  have hdigits : (octalDigits n).reverse.map (fun c => c.toNat - 0x30) = Nat.digits 8 n := by
    rw [octalDigits, ← List.map_reverse, List.reverse_reverse, List.map_map]
    refine (List.map_congr_left fun d hd => ?_).trans (List.map_id _)
    have hlt : d < 8 := Nat.digits_lt_base (by omega) hd
    rw [Function.comp_apply, BitVec.toNat_ofNat, id]
    omega
  rw [octalValue, List.reverse_append, List.map_append, hdigits, List.reverse_replicate,
    List.map_replicate]
  exact (Nat.ofDigits_append_replicate_zero _).trans (Nat.ofDigits_digits 8 n)

/-- The digits of an encoding. -/
lemma octalRun_eq {run rest : List (BitVec 8)} {last : BitVec 8} (spaces : ℕ)
    (hrun : ∀ c ∈ run, isOctal c = true) (hne : run ≠ []) (hlast : last = 0 ∨ last = 0x20) :
    octalRun (List.replicate spaces 0x20 ++ (run ++ last :: rest)) = run := by
  have hspaces : ∀ c ∈ List.replicate spaces (0x20 : BitVec 8), (c == 0x20) = true := by
    intro c hc
    rw [List.eq_of_mem_replicate hc]
    rfl
  have hfirst : (run ++ last :: rest).dropWhile (· == 0x20) = run ++ last :: rest := by
    cases run with
    | nil => exact absurd rfl hne
    | cons c run =>
      have hc := (isOctal_iff c).mp (hrun c List.mem_cons_self)
      refine List.dropWhile_cons_of_neg ?_
      simpa using fun heq => hc.1 (.inr heq)
  have hend : isOctal last = false := by
    rcases hlast with rfl | rfl <;> decide
  rw [octalRun, List.dropWhile_append_of_pos hspaces, hfirst, List.takeWhile_append_of_pos hrun,
    List.takeWhile_cons_of_neg (by simp [hend]), List.append_nil]

/-- A size field is read as it was written. -/
lemma UstarSize.value_eq (h : UstarSize n field) (hn : n < 8 ^ 11) :
    (tarParseOctal field 12).value.toNat = n := by
  obtain ⟨spaces, zeros, last, rest, hbytes, hlast, hzero⟩ := h
  have hrun : ∀ c ∈ List.replicate zeros 0x30 ++ octalDigits n, isOctal c = true := by
    intro c hc
    rcases List.mem_append.mp hc with hc | hc
    · rw [List.eq_of_mem_replicate hc]
      rfl
    · exact isOctal_octalDigits hc
  have hne : List.replicate zeros 0x30 ++ octalDigits n ≠ [] := by
    intro hnil
    obtain ⟨hzeros, hdigits⟩ := List.append_eq_nil_iff.mp hnil
    have hn0 : n = 0 := by
      rw [octalDigits, List.map_eq_nil_iff, List.reverse_eq_nil_iff] at hdigits
      exact Nat.digits_eq_nil_iff_eq_zero.mp hdigits
    have hpos := hzero hn0
    rw [List.replicate_eq_nil_iff] at hzeros
    omega
  rw [(tarParseOctal_spec field 12).1, hbytes, octalRun_eq spaces hrun hne hlast,
    octalValue_octalDigits,
    BitVec.toNat_ofNat]
  exact Nat.mod_eq_of_lt (by omega)

/-- A size rounded up to whole blocks. -/
lemma toNat_roundUp {size : BitVec 64} (h : size.toNat = n) (hn : n < 8 ^ 11) :
    ((size + 511) &&& ~~~511#64).toNat = (n + 511) / 512 * 512 := by
  have hsum : (size + 511).toNat = n + 511 := by
    rw [BitVec.toNat_add, h]
    exact Nat.mod_eq_of_lt (by simp; omega)
  have hmask : (~~~511#64).toNat = (2 ^ 55 - 1) <<< 9 := by decide
  have hround : (n + 511) &&& (2 ^ 55 - 1) <<< 9 = (n + 511) / 512 * 512 :=
    Bits.and_high (k := 9) (m := 55) (by omega)
  rw [BitVec.toNat_and, hsum, hmask, hround]

/-- The header after a file of `n` bytes. -/
lemma nextHeader_eq {mem : ℕ → BitVec 8} {th : ℕ} (hsize : UstarSize n (fileSizeField mem th))
    (hn : n < 8 ^ 11) : nextHeader mem th = (th + 512 + (n + 511) / 512 * 512) % 2 ^ 32 := by
  have hvalue : (fileSize mem th).toNat = n := hsize.value_eq hn
  rw [nextHeader, toNat_roundUp hvalue hn, Nat.mod_add_mod]
  rfl

/-- **Numbers of tar headers.** For every field of any length, `tar_parse_octal` returns the octal
value, modulo `2 ^ 64`, of the digits that follow the leading spaces, and reads no byte behind the
field. A size below `8 ^ 11` is read as it was written, and the address that `init_fs` computes is,
as a pointer, the first multiple of `512` at or after the end of the data. -/
theorem tar_sizes :
    (∀ field length,
      (tarParseOctal field length).value.toNat =
        octalValue (octalRun (fieldBytes field 0 length)) % 2 ^ 64 ∧
      ∀ i ∈ (tarParseOctal field length).reads, i < length) ∧
    (∀ n < 8 ^ 11, ∀ field, UstarSize n field → (tarParseOctal field 12).value.toNat = n) ∧
    ∀ n < 8 ^ 11, ∀ mem th, th % 512 = 0 → UstarSize n (fileSizeField mem th) →
      ∃ next, IsLeast {x | 512 ∣ x ∧ th + sizeofHeader + n ≤ x} next ∧
        nextHeader mem th = next % 2 ^ 32 := by
  refine ⟨fun field length => ?_, fun n hn field h => h.value_eq hn, fun n hn mem th hth h => ?_⟩
  · obtain ⟨hvalue, hreads⟩ := tarParseOctal_spec field length
    refine ⟨?_, hreads⟩
    rw [hvalue, BitVec.toNat_ofNat]
  · have hsize : sizeofHeader = 512 := rfl
    refine ⟨_, ⟨?_, fun x hx => ?_⟩, nextHeader_eq h hn⟩
    · rw [Set.mem_ofPred_eq, hsize]
      omega
    · rw [Set.mem_ofPred_eq, hsize] at hx
      omega

/-- The field `"       1750\0"`. -/
def sizeField (i : ℕ) : BitVec 8 :=
  if i < 7 then 0x20 else if i = 7 then 0x31 else if i = 8 then 0x37 else if i = 9 then 0x35
  else if i = 10 then 0x30 else 0

/-- The memory with a header at `4096` that has this size. -/
def headerMem (x : ℕ) : BitVec 8 := sizeField (x - 4220)

/-- A file of `1000` bytes: its size is read, and the next header is at `5632`. -/
theorem tar_sizes_thousand :
    (tarParseOctal sizeField 12).value.toNat = 1000 ∧ nextHeader headerMem 4096 = 5632 := by
  have hdigits : octalDigits 1000 = [0x31, 0x37, 0x35, 0x30] := by simp [octalDigits]
  have hfield : UstarSize 1000 sizeField := by
    refine ⟨7, 0, 0, [], ?_, .inl rfl, by omega⟩
    rw [hdigits]
    decide
  have hmem : UstarSize 1000 (fileSizeField headerMem 4096) := by
    refine ⟨7, 0, 0, [], ?_, .inl rfl, by omega⟩
    rw [hdigits]
    decide
  refine ⟨tar_sizes.2.1 1000 (by omega) _ hfield, ?_⟩
  obtain ⟨next, ⟨⟨hdvd, hge⟩, hle⟩, hnext⟩ :=
    tar_sizes.2.2 1000 (by omega) headerMem 4096 (by omega) hmem
  have hupper : next ≤ 5632 := hle ⟨by omega, by decide⟩
  have hsize : sizeofHeader = 512 := rfl
  omega

end Tar

end AlphaOS
