import Instrew.Client.ProcessRela
import Instrew.Lib.Numeral

/-!
# Formatted output

`printf_driver` of `client/minilibc.c`. It hands the text over in chunks, as the list it returns
here, and `bytes_written` is their total length. A format is the list of its characters before the
NUL, an argument is a 64-bit slot of the `va_list`, and `none` is a read that the C program has no
right to: of an argument that was not passed, or outside of a string.

The driver knows `%s`, `%c`, `%p`, `%u`, `%x` and `%lx`. It skips any other letter and leaves the
argument to the next conversion, which the client's messages with `%d` and `%lu` do not expect. The
text is the one that is specified exactly if neither is used and what follows the last conversion
is shorter than 2^31 bytes (`printfDriver_emits_iff`).
-/

namespace Instrew.Client.Printf

open Lib.Numeral (numeral numeral_of_lt numeral_div_append numeral_eq_map_range)

def ch (c : Char) : Byte := BitVec.ofNat 8 c.toNat

/-! ## Numbers -/

def hexChar (nibble : Nat) : Byte := (chars "0123456789abcdef").getD nibble 0#8

section Hex

variable {w : Nat}

/-- The loop over the nibbles, from place `i - 1` down to 0. -/
def hexLoop (value : BitVec w) : Nat → List Byte
  | 0 => []
  | i + 1 => hexChar (value >>> (4 * i) &&& BitVec.ofNat w 0xf).toNat :: hexLoop value i

/-- The number of nibbles up to the highest bit. -/
def nibbles (value : BitVec w) : Nat := (w - value.clz.toNat + 3) >>> 2

/-- `%x` and `%lx`. -/
def hexDigits (value : BitVec w) : List Byte :=
  hexLoop value (if value ≠ 0#w then nibbles value else 1)

end Hex

/-- `%p`. -/
def pointerText (value : Word) : List Byte :=
  if value = 0#64 then chars "(nil)" else ch '0' :: ch 'x' :: hexLoop value (nibbles value)

/-- The `while` loop of `%u`. It fills the buffer from the end, where `digits` is already; the
buffer has more places than the number digits. -/
def decLoop : Nat → BitVec 32 → List Byte → List Byte
  | 0, _, digits => digits
  | n + 1, value, digits =>
      if 0#32 < value then
        decLoop n (value / 10#32) ((0x30#32 + value % 10#32).setWidth 8 :: digits)
      else digits

/-- `%u`. -/
def decDigits (value : BitVec 32) : List Byte :=
  if value = 0#32 then [ch '0'] else decLoop 32 value []

/-! ## The driver -/

/-- What one conversion writes, and the format and the arguments after it. -/
structure Step : Type where
  chunks : List (List Byte)
  format : List Byte
  args : List Word

/-- A conversion that takes an argument and writes one chunk. -/
def convert (render : Word → Option (List Byte)) (format : List Byte) (args : List Word) :
    Option Step :=
  match args with
  | [] => none
  | arg :: args => (render arg).map fun chunk => ⟨[chunk], format, args⟩

def strchr (c : Byte) : List Byte → Option (List Byte)
  | [] => none
  | b :: s => if b = c then some (b :: s) else strchr c s

section Driver

-- the C strings in memory
variable (strings : Word → Option (List Byte))

/-- The part of the loop behind a `%`. -/
def conversion : List Byte → List Word → Option Step
  | [], args => some ⟨[[ch '%']], [], args⟩
  | spec :: format, args =>
      if spec = ch 's' then convert strings format args
      else if spec = ch 'c' then convert (fun arg => some [arg.setWidth 8]) format args
      else if spec = ch 'p' then convert (fun arg => some (pointerText arg)) format args
      else if spec = ch 'u' then convert (fun arg => some (decDigits (arg.setWidth 32))) format args
      else if spec = ch 'x' then convert (fun arg => some (hexDigits (arg.setWidth 32))) format args
      else if spec = ch 'l' ∧ format.head? = some (ch 'x') then
        convert (fun arg => some (hexDigits arg)) format.tail args
      else some ⟨[], format, args⟩

/-- The text before a `%`, unless there is none. -/
def flush (text : List Byte) : List (List Byte) := if text = [] then [] else [text]

/-- The rest of a format without a `%`; its length is an `int`. -/
def lastChunk (format : List Byte) : Option (List Byte) :=
  let len := (BitVec.ofNat 32 format.length).toInt
  if 0 ≤ len then some (format.take len.toNat) else none

/-- The loop: the chunks, and the arguments that are left. -/
def driverLoop : Nat → List Byte → List Word → Option (List (List Byte) × List Word)
  | 0, _, _ => none
  | n + 1, format, args =>
      if format = [] then some ([], args)
      else
        match strchr (ch '%') format with
        | none => (lastChunk format).map fun chunk => ([chunk], args)
        | some next =>
            let text := format.take (format.length - next.length)
            (conversion strings next.tail args).bind fun step =>
              (driverLoop n step.format step.args).map fun r =>
                (flush text ++ step.chunks ++ r.1, r.2)

/-- `printf_driver`. Every round takes at least one character of the format. -/
def printfDriver (format : List Byte) (args : List Word) :
    Option (List (List Byte) × List Word) :=
  driverLoop strings (format.length + 1) format args

end Driver

/-! ## What is specified -/

/-- The conversions of the client's messages. -/
inductive Conv : Type where
  | str | chr | ptr | uint | hex | longHex | longUint | int
  deriving DecidableEq

def Conv.letters : Conv → List Byte
  | .str => [ch 's']
  | .chr => [ch 'c']
  | .ptr => [ch 'p']
  | .uint => [ch 'u']
  | .hex => [ch 'x']
  | .longHex => [ch 'l', ch 'x']
  | .longUint => [ch 'l', ch 'u']
  | .int => [ch 'd']

/-- A number in hexadecimal. -/
def hexText (n : Nat) : List Byte := (numeral 16 n).map hexChar

def decText (n : Nat) : List Byte := (numeral 10 n).map fun d => BitVec.ofNat 8 (0x30 + d)

/-- A conversion of an argument; only `%s` needs more than its value. -/
def Conv.render (strings : Word → Option (List Byte)) : Conv → Word → Option (List Byte)
  | .str, arg => strings arg
  | .chr, arg => some [arg.setWidth 8]
  | .ptr, arg => some (if arg = 0#64 then chars "(nil)" else chars "0x" ++ hexText arg.toNat)
  | .uint, arg => some (decText (arg.setWidth 32).toNat)
  | .hex, arg => some (hexText (arg.setWidth 32).toNat)
  | .longHex, arg => some (hexText arg.toNat)
  | .longUint, arg => some (decText arg.toNat)
  | .int, arg =>
      let v := (arg.setWidth 32).toInt
      some ((if v < 0 then [ch '-'] else []) ++ decText v.natAbs)

/-- Text that a format has as it is. -/
abbrev Literal : Type := { text : List Byte // ch '%' ∉ text ∧ 0#8 ∉ text }

inductive Item : Type where
  | text (t : Literal)
  | conv (c : Conv)

def Item.bytes : Item → List Byte
  | .text t => t.1
  | .conv c => ch '%' :: c.letters

def formatOf (items : List Item) : List Byte := items.flatMap Item.bytes

/-- The text of a format and a list of arguments, which has one for every conversion. -/
def printfText (strings : Word → Option (List Byte)) : List Item → List Word → Option (List Byte)
  | [], [] => some []
  | [], _ :: _ => none
  | .text t :: items, args => (printfText strings items args).map (t.1 ++ ·)
  | .conv _ :: _, [] => none
  | .conv c :: items, arg :: args =>
      (c.render strings arg).bind fun text => (printfText strings items args).map (text ++ ·)

/-- The driver writes the text and takes all arguments. -/
def Emits (strings : Word → Option (List Byte)) (format : List Byte) (args : List Word)
    (text : List Byte) : Prop :=
  ∃ chunks, printfDriver strings format args = some (chunks, []) ∧ chunks.flatten = text

/-- The conversions that the driver knows. -/
def Conv.Known (c : Conv) : Prop := c ≠ .longUint ∧ c ≠ .int

instance (c : Conv) : Decidable c.Known := inferInstanceAs (Decidable (_ ∧ _))

/-! ## Numbers are printed as specified -/

section Numbers

variable {w : Nat}

theorem toNat_pos {value : BitVec w} (h : value ≠ 0#w) : 0 < value.toNat := by
  apply Nat.pos_of_ne_zero
  intro hzero
  exact h (BitVec.eq_of_toNat_eq (hzero.trans (BitVec.toNat_zero).symm))

theorem hexLoop_eq (value : BitVec w) (hw : 4 ≤ w) (k : Nat) :
    hexLoop value k =
      ((List.range k).reverse.map fun i => value.toNat / 16 ^ i % 16).map hexChar := by
  induction k with
  | zero => rfl
  | succ i ih =>
      have hmask : (0xf : Nat) < 2 ^ w := by
        have := Nat.pow_le_pow_right (show 0 < 2 by decide) hw
        omega
      have hnibble : (value >>> (4 * i) &&& BitVec.ofNat w 0xf).toNat =
          value.toNat / 16 ^ i % 16 := by
        rw [BitVec.toNat_and, BitVec.toNat_ushiftRight, BitVec.toNat_ofNat, Nat.mod_eq_of_lt hmask,
          Nat.shiftRight_eq_div_pow, pow_mul]
        exact Nat.and_two_pow_sub_one_eq_mod _ 4
      rw [hexLoop, ih, hnibble, List.range_succ, List.reverse_append]
      rfl

/-- The places are those of the numeral. -/
theorem hexLoop_nibbles (value : BitVec w) (hw : 4 ≤ w) (h : value ≠ 0#w) :
    hexLoop value (nibbles value) = hexText value.toNat := by
  have hlow := BitVec.two_pow_sub_clz_le_toNat_of_ne_zero (by omega) h
  have hhigh : value.toNat < 2 ^ (w - value.clz.toNat) := BitVec.toNat_lt_two_pow_sub_clz
  have hnib : nibbles value = (w - value.clz.toNat + 3) / 4 := Nat.shiftRight_eq_div_pow _ 2
  generalize value.clz.toNat = z at hlow hhigh hnib
  have hpos : 0 < w - z := by
    by_contra hzero
    have hone := toNat_pos h
    rw [Nat.eq_zero_of_not_pos hzero, pow_zero] at hhigh
    omega
  obtain ⟨k, hk⟩ : ∃ k, nibbles value = k + 1 := ⟨(w - z + 3) / 4 - 1, by omega⟩
  have hsixteen : ∀ j, 16 ^ j = 2 ^ (4 * j) := fun j => by
    rw [pow_mul]
    rfl
  have hge : 16 ^ k ≤ value.toNat := by
    rw [hsixteen]
    exact (Nat.pow_le_pow_right (by decide) (by omega)).trans hlow
  have hlt : value.toNat < 16 ^ (k + 1) := by
    rw [hsixteen]
    exact hhigh.trans_le (Nat.pow_le_pow_right (by decide) (by omega))
  rw [hexLoop_eq value hw, hk, hexText, numeral_eq_map_range (by decide) k hlt (.inr hge)]

theorem hexDigits_eq (value : BitVec w) (hw : 4 ≤ w) : hexDigits value = hexText value.toNat := by
  unfold hexDigits
  split_ifs with h
  · exact hexLoop_nibbles value hw h
  · rw [not_not.mp h, hexLoop_eq _ hw, hexText, numeral_of_lt (by simp)]
    simp

end Numbers

theorem pointerText_eq (value : Word) :
    pointerText value =
      if value = 0#64 then chars "(nil)" else chars "0x" ++ hexText value.toNat := by
  unfold pointerText
  split_ifs with h
  · rfl
  · rw [hexLoop_nibbles value (by decide) h]
    rfl

theorem decChar (value : BitVec 32) :
    (0x30#32 + value % 10#32).setWidth 8 = BitVec.ofNat 8 (0x30 + value.toNat % 10) := by
  apply BitVec.eq_of_toNat_eq
  have hdigit : (value % 10#32).toNat = value.toNat % 10 := BitVec.toNat_umod
  rw [BitVec.toNat_setWidth, BitVec.toNat_add, hdigit, BitVec.toNat_ofNat, BitVec.toNat_ofNat]
  omega

/-- The loop puts the numeral before what the buffer has. -/
theorem decLoop_eq (n : Nat) : ∀ (value : BitVec 32) (digits : List Byte), 0 < value.toNat →
    value.toNat < 10 ^ n → decLoop n value digits = decText value.toNat ++ digits := by
  induction n with
  | zero =>
      intro value digits hpos hlt
      omega
  | succ n ih =>
      intro value digits hpos hlt
      have hdiv : (value / 10#32).toNat = value.toNat / 10 := BitVec.toNat_udiv
      rw [decLoop, if_pos (show 0#32 < value from BitVec.lt_def.mpr hpos), decChar]
      by_cases hsmall : value.toNat < 10
      · -- the last round: the quotient is 0
        have hzero : value / 10#32 = 0#32 := by
          apply BitVec.eq_of_toNat_eq
          rw [hdiv, Nat.div_eq_of_lt hsmall]
          rfl
        have hstop : ∀ ds, decLoop n 0#32 ds = ds := by
          intro ds
          cases n with
          | zero => rfl
          | succ n => rw [decLoop, if_neg (by decide)]
        rw [hzero, hstop, decText, numeral_of_lt hsmall, Nat.mod_eq_of_lt hsmall]
        rfl
      · have hq : value.toNat / 10 < 10 ^ n := by
          rw [pow_succ] at hlt
          omega
        rw [ih _ _ (by omega) (by omega), hdiv, decText, decText,
          numeral_div_append (by decide) (Nat.le_of_not_lt hsmall), List.map_append,
          List.append_assoc]
        rfl

theorem decDigits_eq (value : BitVec 32) : decDigits value = decText value.toNat := by
  unfold decDigits
  split_ifs with h
  · rw [h]
    decide
  · have hlt := value.isLt
    rw [decLoop_eq 32 value [] (toNat_pos h) (by omega), List.append_nil]

/-! ## One round -/

theorem strchr_of_not_mem {c : Byte} {s : List Byte} (h : c ∉ s) : strchr c s = none := by
  induction s with
  | nil => rfl
  | cons b s ih =>
      rw [List.mem_cons, not_or] at h
      rw [strchr, if_neg (Ne.symm h.1), ih h.2]

theorem strchr_append {c : Byte} {l : List Byte} (h : c ∉ l) (f : List Byte) :
    strchr c (l ++ c :: f) = some (c :: f) := by
  induction l with
  | nil => exact if_pos rfl
  | cons b l ih =>
      rw [List.mem_cons, not_or] at h
      rw [List.cons_append, strchr, if_neg (Ne.symm h.1), ih h.2]

@[simp] theorem flush_flatten (text : List Byte) : (flush text).flatten = text := by
  unfold flush
  split_ifs with h
  · exact h.symm
  · exact List.append_nil text

/-- What the driver writes of the text behind the last conversion. -/
def lastChunks (text : List Byte) : Option (List (List Byte)) :=
  if text = [] then some [] else (lastChunk text).map fun chunk => [chunk]

section Rounds

variable {strings : Word → Option (List Byte)} {l : List Byte}

theorem driverLoop_text (hl : ch '%' ∉ l) (n : Nat) (args : List Word) :
    driverLoop strings (n + 1) l args = (lastChunks l).map fun chunks => (chunks, args) := by
  rw [driverLoop, lastChunks, strchr_of_not_mem hl]
  split_ifs with h
  · rfl
  · rw [Option.map_map]
    rfl

theorem driverLoop_percent (hl : ch '%' ∉ l) (n : Nat) (f : List Byte) (args : List Word) :
    driverLoop strings (n + 1) (l ++ ch '%' :: f) args =
      (conversion strings f args).bind fun step =>
        (driverLoop strings n step.format step.args).map fun r =>
          (flush l ++ step.chunks ++ r.1, r.2) := by
  have htext : (l ++ ch '%' :: f).take ((l ++ ch '%' :: f).length - (ch '%' :: f).length) = l := by
    rw [List.length_append, Nat.add_sub_cancel, List.take_left]
  rw [driverLoop, if_neg (by simp), strchr_append hl]
  simp only [htext, List.tail_cons]

/-- A conversion that the driver knows takes its argument and writes what is specified. -/
theorem conversion_known {c : Conv} (hc : c.Known) (f : List Byte) (args : List Word) :
    conversion strings (c.letters ++ f) args = convert (c.render strings) f args := by
  cases c with
  | str => rfl
  | chr => rfl
  | ptr =>
      have h : Conv.render strings .ptr = fun arg => some (pointerText arg) :=
        funext fun arg => congrArg some (pointerText_eq arg).symm
      rw [h]
      rfl
  | uint =>
      have h : Conv.render strings .uint = fun arg => some (decDigits (arg.setWidth 32)) :=
        funext fun arg => congrArg some (decDigits_eq _).symm
      rw [h]
      rfl
  | hex =>
      have h : Conv.render strings .hex = fun arg => some (hexDigits (arg.setWidth 32)) :=
        funext fun arg => congrArg some (hexDigits_eq _ (by decide)).symm
      rw [h]
      rfl
  | longHex =>
      have h : Conv.render strings .longHex = fun arg => some (hexDigits arg) :=
        funext fun arg => congrArg some (hexDigits_eq arg (by decide)).symm
      rw [h]
      rfl
  | longUint => exact absurd rfl hc.1
  | int => exact absurd rfl hc.2

theorem convert_eq_some {render : Word → Option (List Byte)} {f : List Byte} {args : List Word}
    {step : Step} (h : convert render f args = some step) :
    ∃ arg, args = arg :: step.args ∧ step.format = f := by
  cases args with
  | nil => cases h
  | cons arg args =>
      obtain ⟨t, -, rfl⟩ := Option.map_eq_some_iff.mp h
      exact ⟨arg, rfl, rfl⟩

/-- `%d` writes nothing and takes nothing. -/
theorem conversion_int (f : List Byte) (args : List Word) :
    conversion strings (Conv.letters .int ++ f) args = some ⟨[], f, args⟩ := rfl

/-- Of `%lu` only the `l` is read; the `u` is text. -/
theorem conversion_longUint (f : List Byte) (args : List Word) :
    conversion strings (Conv.letters .longUint ++ f) args = some ⟨[], ch 'u' :: f, args⟩ := rfl

/-- One round with a conversion that the driver knows. -/
theorem driverLoop_conv {c : Conv} (hl : ch '%' ∉ l) (hc : c.Known) {arg : Word} {t : List Byte}
    (ht : c.render strings arg = some t) (n : Nat) (f : List Byte) (args : List Word) :
    driverLoop strings (n + 1) (l ++ ((Item.conv c).bytes ++ f)) (arg :: args) =
      (driverLoop strings n f args).map fun r => (flush l ++ [t] ++ r.1, r.2) := by
  rw [Item.bytes, List.cons_append, driverLoop_percent hl, conversion_known hc, convert, ht]
  rfl

/-- A round with any conversion: `left` is the text that the driver leaves of it, and only one that
it knows takes an argument. -/
theorem driverLoop_conv_some {c : Conv} (hl : ch '%' ∉ l) {n : Nat} {f : List Byte}
    {args : List Word} {r : List (List Byte) × List Word}
    (h : driverLoop strings n (l ++ ((Item.conv c).bytes ++ f)) args = some r) :
    ∃ m left rest r', ch '%' ∉ left ∧ driverLoop strings m (left ++ f) rest = some r' ∧
      r.2 = r'.2 ∧ args.length = rest.length + if c.Known then 1 else 0 := by
  cases n with
  | zero => cases h
  | succ n =>
      rw [Item.bytes, List.cons_append, driverLoop_percent hl, Option.bind_eq_some_iff] at h
      obtain ⟨step, hstep, hmap⟩ := h
      obtain ⟨r', hrest, rfl⟩ := Option.map_eq_some_iff.mp hmap
      by_cases hc : c.Known
      · rw [conversion_known hc] at hstep
        obtain ⟨arg, rfl, hformat⟩ := convert_eq_some hstep
        rw [hformat] at hrest
        exact ⟨n, [], step.args, r', List.not_mem_nil, hrest, rfl, by simp [hc]⟩
      · have hskip : ∃ left, ch '%' ∉ left ∧ step = ⟨[], left ++ f, args⟩ := by
          cases c with
          | longUint =>
              rw [conversion_longUint] at hstep
              exact ⟨[ch 'u'], by decide, (Option.some.inj hstep).symm⟩
          | int =>
              rw [conversion_int] at hstep
              exact ⟨[], List.not_mem_nil, (Option.some.inj hstep).symm⟩
          | _ => exact absurd (by decide) hc
        obtain ⟨left, hleft, rfl⟩ := hskip
        exact ⟨n, left, args, r', hleft, hrest, rfl, by simp [hc]⟩

theorem conversion_format_le {f : List Byte} {args : List Word} {step : Step}
    (h : conversion strings f args = some step) : step.format.length ≤ f.length := by
  cases f with
  | nil =>
      cases h
      exact Nat.le_refl _
  | cons spec f =>
      have hconvert : ∀ {render : Word → Option (List Byte)} {f' : List Byte}, f'.length ≤ f.length →
          convert render f' args = some step → step.format.length ≤ (spec :: f).length := by
        intro render f' hle hstep
        obtain ⟨arg, -, rfl⟩ := convert_eq_some hstep
        exact hle.trans (Nat.le_succ _)
      rw [conversion] at h
      split_ifs at h
      all_goals first
        | exact hconvert (Nat.le_refl _) h
        | exact hconvert (by simp) h
        | (cases h; exact Nat.le_succ _)

/-- A round for each character is enough: `none` is never a loop that has not come to its end. By
induction on the number of rounds; a round that is not the last takes at least the `%`. -/
theorem driverLoop_fuel (n : Nat) : ∀ (m : Nat) (format : List Byte) (args : List Word),
    format.length < n → format.length < m →
    driverLoop strings n format args = driverLoop strings m format args := by
  induction n with
  | zero =>
      intro m format args hn
      exact absurd hn (Nat.not_lt_zero _)
  | succ n ih =>
      intro m format args hn hm
      obtain ⟨m, rfl⟩ : ∃ k, m = k + 1 := ⟨m - 1, by omega⟩
      by_cases hmem : ch '%' ∈ format
      · obtain ⟨l, f, rfl, hl⟩ := List.eq_append_cons_of_mem hmem
        rw [driverLoop_percent hl, driverLoop_percent hl]
        cases hconv : conversion strings f args with
        | none => rfl
        | some step =>
            have hle := conversion_format_le hconv
            rw [List.length_append, List.length_cons] at hn hm
            rw [Option.bind_some, Option.bind_some,
              ih m step.format step.args (by omega) (by omega)]
      · rw [driverLoop_text hmem, driverLoop_text hmem]

end Rounds

/-! ## All rounds -/

section Run

variable {strings : Word → Option (List Byte)}

theorem formatOf_cons (item : Item) (items : List Item) :
    formatOf (item :: items) = item.bytes ++ formatOf items := rfl

theorem percent_not_mem_append {pending : List Byte} (h : ch '%' ∉ pending) (t : Literal) :
    ch '%' ∉ pending ++ t.1 := by
  rw [List.mem_append, not_or]
  exact ⟨h, t.2.1⟩

theorem printfText_conv {c : Conv} {items : List Item} {args : List Word} {text : List Byte}
    (h : printfText strings (.conv c :: items) args = some text) :
    ∃ arg rest t text', args = arg :: rest ∧ c.render strings arg = some t ∧
      printfText strings items rest = some text' ∧ text = t ++ text' := by
  cases args with
  | nil => cases h
  | cons arg rest =>
      rw [printfText, Option.bind_eq_some_iff] at h
      obtain ⟨t, ht, h⟩ := h
      obtain ⟨text', htext', rfl⟩ := Option.map_eq_some_iff.mp h
      exact ⟨arg, rest, t, text', rfl, ht, htext', rfl⟩

/-- The text behind the last conversion, where `pending` is before the items. -/
def trailing (pending : List Byte) : List Item → List Byte
  | [] => pending
  | .text t :: items => trailing (pending ++ t.1) items
  | .conv _ :: items => trailing [] items

/-- With conversions that the driver knows, all that can go wrong is the last chunk. By induction on
the items; `pending` is text that the driver has not come to the end of. -/
theorem driverLoop_known (items : List Item) : ∀ (pending : List Byte) (args : List Word)
    (text : List Byte) (n : Nat), ch '%' ∉ pending → (∀ c, .conv c ∈ items → c.Known) →
    printfText strings items args = some text → args.length < n →
    ∃ before : List (List Byte),
      before.flatten ++ trailing pending items = pending ++ text ∧
      driverLoop strings n (pending ++ formatOf items) args =
        (lastChunks (trailing pending items)).map fun last => (before ++ last, []) := by
  induction items with
  | nil =>
      intro pending args text n hpending _ htext hn
      cases args with
      | cons arg args => cases htext
      | nil =>
          cases htext
          obtain ⟨n, rfl⟩ : ∃ m, n = m + 1 := ⟨n - 1, by omega⟩
          refine ⟨[], (List.append_nil pending).symm, ?_⟩
          rw [formatOf, List.flatMap_nil, List.append_nil, driverLoop_text hpending]
          rfl
  | cons item items ih =>
      intro pending args text n hpending hknown htext hn
      have hknown' : ∀ c, .conv c ∈ items → c.Known :=
        fun c hc => hknown c (List.mem_cons_of_mem _ hc)
      cases item with
      | text t =>
          obtain ⟨text', htext', rfl⟩ := Option.map_eq_some_iff.mp htext
          have hpending' := percent_not_mem_append hpending t
          obtain ⟨before, hbefore, hrun⟩ := ih _ args text' n hpending' hknown' htext' hn
          refine ⟨before, ?_, ?_⟩
          · rw [trailing, hbefore, List.append_assoc]
          · rw [trailing, ← hrun, formatOf_cons, List.append_assoc]
            rfl
      | conv c =>
          obtain ⟨arg, args, t, text', rfl, ht, htext', rfl⟩ := printfText_conv htext
          obtain ⟨n, rfl⟩ : ∃ m, n = m + 1 := ⟨n - 1, by omega⟩
          obtain ⟨before, hbefore, hrun⟩ :=
            ih [] args text' n (List.not_mem_nil) hknown' htext' (by simpa using hn)
          refine ⟨flush pending ++ [t] ++ before, ?_, ?_⟩
          · rw [trailing, List.flatten_append, List.flatten_append, List.append_assoc,
              hbefore, flush_flatten]
            simp
          · rw [List.nil_append] at hrun
            rw [formatOf_cons, driverLoop_conv hpending (hknown c List.mem_cons_self) ht, hrun,
              Option.map_map, trailing]
            congr 1
            funext last
            exact Prod.ext (List.append_assoc _ before last).symm rfl

/-- The items that take an argument. -/
def Item.takes : Item → Bool
  | .text _ => false
  | .conv c => c.Known

/-- Those that should but do not. -/
def Item.skips : Item → Bool
  | .text _ => false
  | .conv c => ¬ c.Known

theorem printfText_length (items : List Item) : ∀ (args : List Word) (text : List Byte),
    printfText strings items args = some text →
    args.length = items.countP Item.takes + items.countP Item.skips := by
  induction items with
  | nil =>
      intro args text h
      cases args with
      | nil => rfl
      | cons arg args => cases h
  | cons item items ih =>
      intro args text h
      cases item with
      | text t =>
          obtain ⟨text', htext', -⟩ := Option.map_eq_some_iff.mp h
          rw [ih args text' htext']
          rfl
      | conv c =>
          obtain ⟨arg, args, t, text', rfl, -, htext', -⟩ := printfText_conv h
          have := ih args text' htext'
          by_cases hc : c.Known <;> simp [Item.takes, Item.skips, hc] <;> omega

theorem conversions_le_length (items : List Item) :
    items.countP Item.takes + items.countP Item.skips ≤ (formatOf items).length := by
  induction items with
  | nil => exact Nat.le_refl _
  | cons item items ih =>
      rw [formatOf_cons, List.length_append]
      cases item with
      | text t =>
          have hnone : ∀ p : Item → Bool, p (.text t) = false →
              (Item.text t :: items).countP p = items.countP p :=
            fun p hp => List.countP_cons_of_neg (by simp [hp])
          rw [hnone _ rfl, hnone _ rfl]
          omega
      | conv c =>
          rw [Item.bytes, List.length_cons]
          by_cases hc : c.Known <;> simp [Item.takes, Item.skips, hc] <;> omega

/-- The driver takes an argument for each conversion that it knows, and no other. -/
theorem driverLoop_args (items : List Item) : ∀ (pending : List Byte) (args : List Word) (n : Nat)
    (r : List (List Byte) × List Word), ch '%' ∉ pending →
    driverLoop strings n (pending ++ formatOf items) args = some r →
    args.length = items.countP Item.takes + r.2.length := by
  induction items with
  | nil =>
      intro pending args n r hpending hrun
      cases n with
      | zero => cases hrun
      | succ n =>
          rw [formatOf, List.flatMap_nil, List.append_nil, driverLoop_text hpending] at hrun
          obtain ⟨chunks, -, rfl⟩ := Option.map_eq_some_iff.mp hrun
          exact (Nat.zero_add _).symm
  | cons item items ih =>
      intro pending args n r hpending hrun
      cases item with
      | text t =>
          have hpending' := percent_not_mem_append hpending t
          rw [formatOf_cons, ← List.append_assoc] at hrun
          exact ih _ args n r hpending' hrun
      | conv c =>
          rw [formatOf_cons] at hrun
          obtain ⟨m, left, rest, r', hleft, hrest, hr, hargs⟩ := driverLoop_conv_some hpending hrun
          rw [hargs, hr, ih left rest m r' hleft hrest]
          by_cases hc : c.Known
          · simp [Item.takes, hc]
            omega
          · simp [Item.takes, hc]

end Run

/-! ## The driver -/

/-- The lengths that an `int` has. -/
theorem toInt_ofNat_eq_iff (n : Nat) : (BitVec.ofNat 32 n).toInt = n ↔ n < 2 ^ 31 := by
  constructor
  · intro h
    have hlt : (BitVec.ofNat 32 n).toInt < 2 ^ 31 := BitVec.toInt_lt
    omega
  · intro h
    have hn : (BitVec.ofNat 32 n).toNat = n := by
      rw [BitVec.toNat_ofNat, Nat.mod_eq_of_lt (by omega)]
    rw [BitVec.toInt_eq_toNat_of_lt (by omega), hn]

theorem lastChunk_of_lt {text : List Byte} (h : text.length < 2 ^ 31) :
    lastChunk text = some text := by
  rw [lastChunk, (toInt_ofNat_eq_iff _).mpr h, if_pos (Int.natCast_nonneg _), Int.toNat_natCast, List.take_length]

/-- A longer text is cut, if it does not make the driver read outside of it. -/
theorem lastChunk_short {text chunk : List Byte} (h : 2 ^ 31 ≤ text.length)
    (hchunk : lastChunk text = some chunk) : chunk.length < text.length := by
  have hlt : (BitVec.ofNat 32 text.length).toInt < 2 ^ 31 := BitVec.toInt_lt
  simp only [lastChunk] at hchunk
  split_ifs at hchunk with hpos
  rw [← Option.some.inj hchunk, List.length_take]
  omega

theorem lastChunks_flatten {text : List Byte} (h : text.length < 2 ^ 31) :
    ∃ last, lastChunks text = some last ∧ last.flatten = text := by
  unfold lastChunks
  split_ifs with hnil
  · exact ⟨[], rfl, hnil.symm⟩
  · rw [lastChunk_of_lt h]
    exact ⟨[text], rfl, List.append_nil text⟩

theorem lastChunks_short {text : List Byte} {last : List (List Byte)} (h : 2 ^ 31 ≤ text.length)
    (hlast : lastChunks text = some last) : last.flatten ≠ text := by
  have hne : text ≠ [] := by
    rintro rfl
    simp at h
  rw [lastChunks, if_neg hne] at hlast
  obtain ⟨chunk, hchunk, rfl⟩ := Option.map_eq_some_iff.mp hlast
  have hshort := lastChunk_short h hchunk
  intro heq
  rw [← heq] at hshort
  simp at hshort

section Main

variable {strings : Word → Option (List Byte)} {items : List Item} {args : List Word}
  {text : List Byte}

/-- A driver that takes all arguments knows all conversions. -/
theorem known_of_args_taken (hmatch : printfText strings items args = some text)
    {chunks : List (List Byte)}
    (hrun : printfDriver strings (formatOf items) args = some (chunks, [])) :
    ∀ c, .conv c ∈ items → c.Known := by
  have htaken := driverLoop_args items [] args _ _ List.not_mem_nil hrun
  have hall := printfText_length items args text hmatch
  have hskips : items.countP Item.skips = 0 := by
    rw [htaken] at hall
    simpa using hall
  intro c hc
  by_contra hunknown
  exact List.countP_eq_zero.mp hskips _ hc (decide_eq_true hunknown)

theorem printfDriver_known (hmatch : printfText strings items args = some text)
    (hknown : ∀ c, .conv c ∈ items → c.Known) :
    ∃ before : List (List Byte), before.flatten ++ trailing [] items = text ∧
      printfDriver strings (formatOf items) args =
        (lastChunks (trailing [] items)).map fun last => (before ++ last, []) := by
  apply driverLoop_known items [] args text _ List.not_mem_nil hknown hmatch
  rw [printfText_length items args text hmatch]
  exact Nat.lt_succ_of_le (conversions_le_length items)

/-- The driver writes the text that is specified exactly if it knows all conversions and the length
of the text behind the last one is an `int`. -/
theorem printfDriver_emits_iff (hmatch : printfText strings items args = some text) :
    Emits strings (formatOf items) args text ↔
      (∀ c, .conv c ∈ items → c.Known) ∧ (trailing [] items).length < 2 ^ 31 := by
  constructor
  · rintro ⟨chunks, hrun, hchunks⟩
    have hknown := known_of_args_taken hmatch hrun
    refine ⟨hknown, ?_⟩
    obtain ⟨before, hbefore, hdriver⟩ := printfDriver_known hmatch hknown
    by_contra hlong
    rw [hdriver] at hrun
    obtain ⟨last, hlast, heq⟩ := Option.map_eq_some_iff.mp hrun
    apply lastChunks_short (Nat.le_of_not_lt hlong) hlast
    rw [← (Prod.mk.inj heq).1, List.flatten_append, ← hbefore] at hchunks
    exact List.append_cancel_left hchunks
  · rintro ⟨hknown, hshort⟩
    obtain ⟨before, hbefore, hdriver⟩ := printfDriver_known hmatch hknown
    obtain ⟨last, hlast, hflatten⟩ := lastChunks_flatten hshort
    refine ⟨before ++ last, ?_, ?_⟩
    · rw [hdriver, hlast]
      rfl
    · rw [List.flatten_append, hflatten, hbefore]

end Main

/-! ## Messages of the client -/

/-- `"%lx_%s"`, the name of a function in a profile. -/
def perfName : List Item := [.conv .longHex, .text ⟨chars "_", by decide⟩, .conv .str]

theorem perfName_emitted :
    Emits (fun _ => some (chars "S20")) (formatOf perfName) [0x401f00#64, 0x1000#64]
      (chars "401f00_S20") := by
  refine (printfDriver_emits_iff (by decide)).mpr ⟨?_, by decide⟩
  intro c hc
  simp only [perfName, List.mem_cons, Item.conv.injEq, reduceCtorEq, List.not_mem_nil, false_or,
    or_false] at hc
  rcases hc with rfl | rfl <;> decide

/-- `"%lu total repeats (dispatch #%lx)\n"`, the end of the message of `loop_detect_check`. -/
def repeatsMessage : List Item :=
  [.conv .longUint, .text ⟨chars " total repeats (dispatch #", by decide⟩, .conv .longHex,
    .text ⟨chars ")\n", by decide⟩]

/-- The count is not printed, but stands for the number of the dispatch. -/
theorem repeatsMessage_misprinted :
    let strings : Word → Option (List Byte) := fun _ => none
    let args := [9#64, 0x1000#64]
    let text := chars "9 total repeats (dispatch #1000)\n"
    printfText strings repeatsMessage args = some text ∧
      (printfDriver strings (formatOf repeatsMessage) args).map (fun r => (r.1.flatten, r.2)) =
        some (chars "u total repeats (dispatch #9)\n", [0x1000#64]) ∧
      ¬ Emits strings (formatOf repeatsMessage) args text := by
  intro strings args text
  have hdriver : (printfDriver strings (formatOf repeatsMessage) args).map
      (fun r => (r.1.flatten, r.2)) =
      some (chars "u total repeats (dispatch #9)\n", [0x1000#64]) := by decide
  refine ⟨by decide, hdriver, ?_⟩
  rintro ⟨chunks, hrun, -⟩
  rw [hrun] at hdriver
  cases (Prod.mk.inj (Option.some.inj hdriver)).2

end Instrew.Client.Printf
