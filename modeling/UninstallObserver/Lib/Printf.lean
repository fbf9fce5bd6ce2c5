import Mathlib.Data.List.Count
import Mathlib.Data.Nat.Digits.Defs
import UninstallObserver.Lib.ByteOrder

/-! Formatted output of one unsigned argument, as the C standard defines it.

What the standard leaves undefined, such as a conversion of another type or a second one, has
no output. -/
namespace Printf
open ByteOrder

def chr (c : Char) : Byte := BitVec.ofNat 8 c.toNat

inductive Length where
  | none | hh | h | z
  deriving DecidableEq, Repr

/-- A conversion specification: flags, field width, precision, length modifier, conversion. -/
structure Directive where
  minus : Bool
  plus : Bool
  space : Bool
  alt : Bool
  zero : Bool
  width : ℕ
  precision : Option ℕ
  length : Length
  conversion : Byte
  deriving DecidableEq, Repr

section Parsing

def Directive.flag (b : Byte) (d : Directive) : Option Directive :=
  if b = chr '-' then some { d with minus := true }
  else if b = chr '+' then some { d with plus := true }
  else if b = chr ' ' then some { d with space := true }
  else if b = chr '#' then some { d with alt := true }
  else if b = chr '0' then some { d with zero := true }
  else none

def takeFlags : Directive → List Byte → Directive × List Byte
  | d, [] => (d,[])
  | d, b::bs =>
    match d.flag b with
    | some d' => takeFlags d' bs
    | none => (d,b::bs)

def takeNumber : ℕ → List Byte → ℕ × List Byte
  | n, [] => (n,[])
  | n, b::bs =>
    if 0x30 ≤ b ∧ b ≤ 0x39 then takeNumber (10*n + (b.toNat - 0x30)) bs else (n,b::bs)

def takePrecision : List Byte → Option ℕ × List Byte
  | [] => (none,[])
  | b::bs =>
    if b = chr '.' then (some (takeNumber 0 bs).1,(takeNumber 0 bs).2) else (none,b::bs)

def takeLength : List Byte → Length × List Byte
  | [] => (.none,[])
  | b::bs =>
    if b = chr 'h' then
      match bs with
      | [] => (.h,[])
      | c::cs => if c = chr 'h' then (.hh,cs) else (.h,c::cs)
    else if b = chr 'z' then (.z,bs)
    else (.none,b::bs)

/-- The specification that stands behind a '%', and what follows it. -/
def takeDirective (bs : List Byte) : Option (Directive × List Byte) :=
  let flags := takeFlags ⟨false,false,false,false,false,0,none,.none,0⟩ bs
  let width := takeNumber 0 flags.2
  let precision := takePrecision width.2
  let length := takeLength precision.2
  match length.2 with
  | [] => none
  | c::rest =>
    some ({ flags.1 with
      width := width.1, precision := precision.1, length := length.1, conversion := c },rest)

end Parsing

section Conversions

/-- The character of a digit. -/
def digit (upper : Bool) (n : ℕ) : Byte :=
  BitVec.ofNat 8 (if n < 10 then 0x30 + n else if upper then 0x37 + n else 0x57 + n)

/-- A number with at least as many digits as the precision asks for. -/
def digits (base : ℕ) (upper : Bool) (precision : Option ℕ) (n : ℕ) : List Byte :=
  let ds := (Nat.digits base n).reverse.map (digit upper)
  List.replicate (precision.getD 1 - ds.length) (chr '0') ++ ds

namespace Directive

/-- Fill up to the field width. -/
def fill (lead body : List Byte) (d : Directive) : List Byte :=
  let k := d.width - (lead.length + body.length)
  if d.minus then lead ++ body ++ List.replicate k (chr ' ')
  else if d.zero ∧ d.precision = none then lead ++ List.replicate k (chr '0') ++ body
  else List.replicate k (chr ' ') ++ lead ++ body

/-- The argument as the length modifier narrows it; other types than its own are undefined. -/
def narrow {w : ℕ} (arg : BitVec w) (d : Directive) : Option (Σ v, BitVec v) :=
  match d.length with
  | .z => some ⟨w,arg⟩
  | .none => if w = 32 then some ⟨w,arg⟩ else none
  | .h => if w = 32 then some ⟨16,arg.setWidth 16⟩ else none
  | .hh => if w = 32 then some ⟨8,arg.setWidth 8⟩ else none

/-- "d" and "i". -/
def signed (n : ℤ) (d : Directive) : List Byte :=
  let sign := if n < 0 then [chr '-'] else if d.plus then [chr '+']
    else if d.space then [chr ' '] else []
  d.fill sign (digits 10 false d.precision n.natAbs)

/-- "o", whose alternative form starts with a zero. -/
def octal (n : ℕ) (d : Directive) : List Byte :=
  let ds := digits 8 false d.precision n
  d.fill [] (if d.alt ∧ ds.head? ≠ some (chr '0') then chr '0'::ds else ds)

/-- "x" and "X". -/
def hex (upper : Bool) (n : ℕ) (d : Directive) : List Byte :=
  d.fill (if d.alt ∧ n ≠ 0 then [chr '0',chr (if upper then 'X' else 'x')] else [])
    (digits 16 upper d.precision n)

/-- What a specification makes of the argument. -/
def render {w : ℕ} (arg : BitVec w) (d : Directive) : Option (List Byte) :=
  if d.conversion = chr 'c' then
    if w = 32 ∧ d.length = .none ∧ d.alt = false ∧ d.zero = false ∧ d.precision = none then
      some (d.fill [] [arg.setWidth 8])
    else none
  else if d.conversion = chr 'd' ∨ d.conversion = chr 'i' then
    if d.alt then none else (d.narrow arg).map fun x => d.signed x.2.toInt
  else if d.conversion = chr 'u' then
    if d.alt then none
    else (d.narrow arg).map fun x => d.fill [] (digits 10 false d.precision x.2.toNat)
  else if d.conversion = chr 'o' then (d.narrow arg).map fun x => d.octal x.2.toNat
  else if d.conversion = chr 'x' then (d.narrow arg).map fun x => d.hex false x.2.toNat
  else if d.conversion = chr 'X' then (d.narrow arg).map fun x => d.hex true x.2.toNat
  else none

end Directive
end Conversions

/-- The output for a format and at most one argument; each step takes one character at least. -/
def format {w : ℕ} : ℕ → Option (BitVec w) → List Byte → Option (List Byte)
  | _, _, [] => some []
  | 0, _, _::_ => none
  | fuel+1, arg, b::bs =>
    if b ≠ chr '%' then (format fuel arg bs).map (b::·)
    else if bs.head? = some (chr '%') then (format fuel arg bs.tail).map (chr '%'::·)
    else
      match arg, takeDirective bs with
      | some x, some (d,rest) =>
        (d.render x).bind fun out => (format (w := w) fuel none rest).map (out ++ ·)
      | _, _ => none

/-- `sprintf(str, fmt, arg)`: what is written to `str` ahead of the NUL. -/
def sprintf {w : ℕ} (fmt : List Byte) (arg : BitVec w) : Option (List Byte) :=
  format fmt.length (some arg) fmt

/-- A format has this output. -/
inductive Formats {w : ℕ} : Option (BitVec w) → List Byte → List Byte → Prop
  | nil {arg : Option (BitVec w)} : Formats arg [] []
  | char {arg : Option (BitVec w)} {b : Byte} {fmt out : List Byte} (plain : b ≠ chr '%')
      (tail : Formats arg fmt out) : Formats arg (b::fmt) (b::out)
  | percent {arg : Option (BitVec w)} {fmt out : List Byte} (tail : Formats arg fmt out) :
      Formats arg (chr '%'::chr '%'::fmt) (chr '%'::out)
  | directive {x : BitVec w} {d : Directive} {fmt rest out r : List Byte}
      (taken : takeDirective fmt = some (d,rest)) (rendered : d.render x = some r)
      (tail : Formats (w := w) none rest out) : Formats (some x) (chr '%'::fmt) (r ++ out)

variable {w : ℕ} {arg : Option (BitVec w)} {x : BitVec w} {fmt out bs rest : List Byte}
  {d : Directive}

theorem Formats.of_format {fuel : ℕ} (h : format fuel arg fmt = some out) :
    Formats arg fmt out := by
  induction fuel generalizing arg fmt out with
  | zero =>
    cases fmt with
    | nil =>
      cases h
      exact .nil
    | cons b bs => cases h
  | succ fuel ih =>
    cases fmt with
    | nil =>
      cases h
      exact .nil
    | cons b bs =>
      unfold format at h
      split at h
      · next hb =>
        obtain ⟨out,hout,rfl⟩ := Option.map_eq_some_iff.mp h
        exact .char hb (ih hout)
      next hb =>
      obtain rfl := not_not.mp hb
      split at h
      · next hbs =>
        obtain ⟨out,hout,rfl⟩ := Option.map_eq_some_iff.mp h
        obtain ⟨rest,rfl⟩ := List.head?_eq_some_iff.mp hbs
        exact .percent (ih hout)
      · split at h
        · next x d rest htaken =>
          obtain ⟨r,hr,h⟩ := Option.bind_eq_some_iff.mp h
          obtain ⟨out,hout,rfl⟩ := Option.map_eq_some_iff.mp h
          exact .directive htaken hr (ih hout)
        · cases h

/-- Without a '%' the format is its own output. -/
theorem format_eq_self {fuel : ℕ} (hfuel : fmt.length ≤ fuel) (h : chr '%' ∉ fmt) :
    format fuel arg fmt = some fmt := by
  induction fmt generalizing fuel with
  | nil => cases fuel <;> rfl
  | cons b bs ih =>
    obtain ⟨fuel,rfl⟩ : ∃ n, fuel = n+1 := ⟨fuel-1,by simp at hfuel; omega⟩
    obtain ⟨hb,hbs⟩ := List.ne_and_not_mem_of_not_mem_cons h
    unfold format
    rw [if_pos (Ne.symm hb),ih (by simpa using hfuel) hbs]
    rfl

section Suffixes

theorem takeFlags_suffix (d : Directive) (bs : List Byte) : (takeFlags d bs).2 <:+ bs := by
  induction bs generalizing d with
  | nil => exact List.suffix_rfl
  | cons b bs ih =>
    unfold takeFlags
    split
    · next d' _ => exact (ih d').trans (List.suffix_cons b bs)
    · exact List.suffix_rfl

theorem takeNumber_suffix (n : ℕ) (bs : List Byte) : (takeNumber n bs).2 <:+ bs := by
  induction bs generalizing n with
  | nil => exact List.suffix_rfl
  | cons b bs ih =>
    unfold takeNumber
    split
    · exact (ih _).trans (List.suffix_cons b bs)
    · exact List.suffix_rfl

theorem takePrecision_suffix (bs : List Byte) : (takePrecision bs).2 <:+ bs := by
  cases bs with
  | nil => exact List.suffix_rfl
  | cons b bs =>
    rw [takePrecision]
    split
    · exact (takeNumber_suffix 0 bs).trans (List.suffix_cons b bs)
    · exact List.suffix_rfl

theorem takeLength_suffix (bs : List Byte) : (takeLength bs).2 <:+ bs := by
  cases bs with
  | nil => exact List.suffix_rfl
  | cons b bs =>
    rw [takeLength.eq_def]
    dsimp only
    split
    · split
      · exact List.suffix_cons b []
      · next c cs =>
        split
        · exact (List.suffix_cons c cs).trans (List.suffix_cons b _)
        · exact List.suffix_cons b _
    · split
      · exact List.suffix_cons b bs
      · exact List.suffix_rfl

/-- A specification ends with its conversion. -/
theorem takeDirective_suffix (h : takeDirective bs = some (d,rest)) :
    d.conversion::rest <:+ bs := by
  unfold takeDirective at h
  dsimp only at h
  split at h
  · cases h
  · next c rest' hlast =>
    cases h
    dsimp only
    rw [← hlast]
    exact (takeLength_suffix _).trans ((takePrecision_suffix _).trans
      ((takeNumber_suffix _ _).trans (takeFlags_suffix _ _)))

end Suffixes

section Plain

/-- Neither a '%' nor a NUL. -/
def Plain (l : List Byte) : Prop := ∀ b ∈ l, b ≠ chr '%' ∧ b ≠ 0

theorem Plain.append {l l' : List Byte} (h : Plain l) (h' : Plain l') : Plain (l ++ l') := by
  intro b hb
  exact (List.mem_append.mp hb).elim (h b) (h' b)

theorem plain_replicate {n : ℕ} {b : Byte} (h : b ≠ chr '%' ∧ b ≠ 0) :
    Plain (List.replicate n b) := by
  intro c hc
  rw [List.eq_of_mem_replicate hc]
  exact h

theorem plain_digit {upper : Bool} {n : ℕ} (hn : n < 16) :
    digit upper n ≠ chr '%' ∧ digit upper n ≠ 0 := by
  have hall : ∀ (n : Fin 16) (upper : Bool), digit upper n ≠ chr '%' ∧ digit upper n ≠ 0 := by
    decide
  exact hall ⟨n,hn⟩ upper

theorem plain_digits {base n : ℕ} {upper : Bool} {precision : Option ℕ} (hbase : 1 < base)
    (hle : base ≤ 16) : Plain (digits base upper precision n) := by
  refine (plain_replicate (by decide)).append fun b hb => ?_
  obtain ⟨k,hk,rfl⟩ := List.mem_map.mp hb
  have hlt := Nat.digits_lt_base hbase (List.mem_reverse.mp hk)
  exact plain_digit (hlt.trans_le hle)

theorem plain_fill {lead body : List Byte} (hlead : Plain lead) (hbody : Plain body) :
    Plain (d.fill lead body) := by
  unfold Directive.fill
  dsimp only
  split
  · exact (hlead.append hbody).append (plain_replicate (by decide))
  · split
    · exact (hlead.append (plain_replicate (by decide))).append hbody
    · exact ((plain_replicate (by decide)).append hlead).append hbody

theorem plain_nil : Plain [] := fun _ h => absurd h List.not_mem_nil

theorem plain_singleton {b : Byte} (h : b ≠ chr '%' ∧ b ≠ 0) : Plain [b] :=
  plain_replicate (n := 1) h

theorem plain_signed (n : ℤ) : Plain (d.signed n) := by
  refine plain_fill ?_ (plain_digits (by decide) (by decide))
  split
  · exact plain_singleton (by decide)
  · split
    · exact plain_singleton (by decide)
    · split
      · exact plain_singleton (by decide)
      · exact plain_nil

theorem plain_octal (n : ℕ) : Plain (d.octal n) := by
  have hds : Plain (digits 8 false d.precision n) := plain_digits (by decide) (by decide)
  refine plain_fill plain_nil ?_
  split
  · exact (plain_singleton (by decide)).append hds
  · exact hds

theorem plain_hex (upper : Bool) (n : ℕ) : Plain (d.hex upper n) := by
  refine plain_fill ?_ (plain_digits (by decide) (by decide))
  split
  · exact (plain_singleton (by decide)).append (plain_singleton (by cases upper <;> decide))
  · exact plain_nil

/-- A number is printed without a '%' or a NUL. -/
theorem plain_render {r : List Byte} (h : d.render x = some r) (hc : d.conversion ≠ chr 'c') :
    Plain r := by
  unfold Directive.render at h
  rw [if_neg hc] at h
  split at h
  · split at h
    · cases h
    · obtain ⟨n,-,rfl⟩ := Option.map_eq_some_iff.mp h
      exact plain_signed _
  split at h
  · split at h
    · cases h
    · obtain ⟨n,-,rfl⟩ := Option.map_eq_some_iff.mp h
      exact plain_fill plain_nil (plain_digits (by decide) (by decide))
  split at h
  · obtain ⟨n,-,rfl⟩ := Option.map_eq_some_iff.mp h
    exact plain_octal _
  split at h
  · obtain ⟨n,-,rfl⟩ := Option.map_eq_some_iff.mp h
    exact plain_hex false _
  split at h
  · obtain ⟨n,-,rfl⟩ := Option.map_eq_some_iff.mp h
    exact plain_hex true _
  · cases h

/-- A character is printed with blanks on one side. -/
theorem render_char {r : List Byte} (h : d.render x = some r) (hc : d.conversion = chr 'c') :
    ∃ k, r = x.setWidth 8::List.replicate k (chr ' ') ∨
      r = List.replicate k (chr ' ') ++ [x.setWidth 8] := by
  unfold Directive.render at h
  rw [if_pos hc] at h
  obtain ⟨⟨-,-,-,hzero,-⟩,h⟩ := Option.ite_none_right_eq_some.mp h
  cases h
  unfold Directive.fill
  dsimp only
  split
  · exact ⟨_,.inl rfl⟩
  · rw [if_neg (by simp [hzero])]
    exact ⟨d.width - 1,.inr (by simp)⟩

end Plain

section Percents

theorem count_plain {l : List Byte} (h : Plain l) : l.count (chr '%') = 0 :=
  List.count_eq_zero.mpr fun hmem => (h _ hmem).1 rfl

theorem count_render_le {r : List Byte} (h : d.render x = some r) : r.count (chr '%') ≤ 1 := by
  by_cases hc : d.conversion = chr 'c'
  · have hblank : ∀ k, (List.replicate k (chr ' ')).count (chr '%') = 0 :=
      fun k => count_plain (plain_replicate (by decide))
    have hone : [x.setWidth 8].count (chr '%') ≤ 1 := List.count_le_length
    obtain ⟨k,hr | hr⟩ := render_char h hc
    · rw [hr,← List.singleton_append,List.count_append,hblank]
      exact hone
    · rw [hr,List.count_append,hblank,Nat.zero_add]
      exact hone
  · rw [count_plain (plain_render h hc)]
    exact Nat.zero_le 1

theorem count_rest_le (h : takeDirective bs = some (d,rest)) :
    rest.count (chr '%') ≤ bs.count (chr '%') :=
  ((List.suffix_cons d.conversion rest).trans (takeDirective_suffix h)).sublist.count_le _

/-- No '%' is printed that the format does not have. -/
theorem Formats.count_le (h : Formats arg fmt out) :
    out.count (chr '%') ≤ fmt.count (chr '%') := by
  induction h with
  | nil => exact le_rfl
  | char plain tail ih =>
    rw [List.count_cons_of_ne plain,List.count_cons_of_ne plain]
    exact ih
  | percent tail ih =>
    simp only [List.count_cons_self]
    omega
  | directive taken rendered tail ih =>
    have hr := count_render_le rendered
    have hrest := count_rest_le taken
    rw [List.count_append,List.count_cons_self]
    omega

/-- With no argument left, a '%' is lost for each pair. -/
theorem Formats.eq_of_count (h : Formats arg fmt out) (harg : arg = none)
    (hcount : out.count (chr '%') = fmt.count (chr '%')) : out = fmt := by
  induction h with
  | nil => rfl
  | char plain tail ih =>
    rw [List.count_cons_of_ne plain,List.count_cons_of_ne plain] at hcount
    rw [ih harg hcount]
  | percent tail =>
    have hle := tail.count_le
    simp only [List.count_cons_self] at hcount
    omega
  | directive => cases harg

/-- A format that is its own output has no '%'. -/
theorem Formats.percent_notMem (h : Formats arg fmt out) (heq : out = fmt) : chr '%' ∉ fmt := by
  induction h with
  | nil => exact List.not_mem_nil
  | char plain tail ih =>
    exact List.not_mem_cons_of_ne_of_not_mem (Ne.symm plain) (ih (List.cons.inj heq).2)
  | percent tail =>
    have hle := tail.count_le
    rw [(List.cons.inj heq).2,List.count_cons_self] at hle
    omega
  | @directive x d fmt rest out r taken rendered tail =>
    have hr := count_render_le rendered
    have hrest := count_rest_le taken
    have hle := tail.count_le
    have hcount := congrArg (List.count (chr '%')) heq
    rw [List.count_append,List.count_cons_self] at hcount
    -- only a '%' that is printed as a character keeps the number of them
    have hc : d.conversion = chr 'c' := by
      by_contra hc
      rw [count_plain (plain_render rendered hc)] at hcount
      omega
    have hout : out = rest := tail.eq_of_count rfl (by omega)
    obtain ⟨t,ht⟩ := takeDirective_suffix taken
    rw [hout,← ht,hc] at heq
    have hrend : r = chr '%'::(t ++ [chr 'c']) := by
      have hsplit : r ++ rest = chr '%'::(t ++ [chr 'c']) ++ rest := by
        simpa using heq
      exact List.append_cancel_right hsplit
    obtain ⟨k,hk | hk⟩ := render_char rendered hc
    · rw [hk] at hrend
      have hmem : chr 'c' ∈ List.replicate k (chr ' ') := by
        rw [(List.cons.inj hrend).2]
        simp
      exact absurd (List.eq_of_mem_replicate hmem) (by decide)
    · have hlast : r.getLast? = some (chr 'c') := by
        rw [hrend,← List.cons_append,List.getLast?_concat]
      rw [hk,List.getLast?_concat,Option.some.injEq] at hlast
      have hmem : chr '%' ∈ r := by
        rw [hrend]
        exact List.mem_cons_self
      rw [hk,hlast,List.mem_append,List.mem_singleton] at hmem
      rcases hmem with hmem | hmem
      · exact absurd (List.eq_of_mem_replicate hmem) (by decide)
      · exact absurd hmem (by decide)

/-- A NUL is printed as a character only. -/
theorem Formats.zero_of_mem (h : Formats arg fmt out) (hfmt : 0 ∉ fmt) (hout : 0 ∈ out) :
    ∃ x, arg = some x ∧ x.setWidth 8 = 0 := by
  induction h with
  | nil => exact absurd hout List.not_mem_nil
  | char plain tail ih =>
    obtain ⟨hb,hfmt⟩ := List.ne_and_not_mem_of_not_mem_cons hfmt
    exact ih hfmt (List.mem_of_ne_of_mem hb hout)
  | percent tail ih =>
    refine ih (fun h => hfmt ?_) (List.mem_of_ne_of_mem (by decide) hout)
    exact List.mem_cons_of_mem _ (List.mem_cons_of_mem _ h)
  | @directive x d fmt rest out r taken rendered tail ih =>
    have hrest : 0 ∉ rest := fun h => hfmt (List.mem_cons_of_mem _
      ((takeDirective_suffix taken).subset (List.mem_cons_of_mem _ h)))
    rcases List.mem_append.mp hout with hr | hr
    · refine ⟨x,rfl,?_⟩
      by_cases hc : d.conversion = chr 'c'
      · obtain ⟨k,hk | hk⟩ := render_char rendered hc
        · rw [hk] at hr
          rcases List.mem_cons.mp hr with hr | hr
          · exact hr.symm
          · exact absurd (List.eq_of_mem_replicate hr) (by decide)
        · rw [hk,List.mem_append,List.mem_singleton] at hr
          rcases hr with hr | hr
          · exact absurd (List.eq_of_mem_replicate hr) (by decide)
          · exact hr.symm
      · exact absurd rfl (plain_render rendered hc 0 hr).2
    · obtain ⟨y,hy,-⟩ := ih hrest hr
      cases hy

end Percents

section Sprintf
variable {x : BitVec w}

theorem sprintf_of_percent_notMem (h : chr '%' ∉ fmt) : sprintf fmt x = some fmt :=
  format_eq_self le_rfl h

/-- The output is the format itself only if there is no '%' in it. -/
theorem percent_notMem_of_sprintf (h : sprintf fmt x = some fmt) : chr '%' ∉ fmt :=
  (Formats.of_format h).percent_notMem rfl

theorem zero_notMem_of_sprintf (h : sprintf fmt x = some out) (hfmt : 0 ∉ fmt)
    (hx : x.setWidth 8 ≠ 0) : 0 ∉ out := by
  intro hout
  obtain ⟨y,hy,hzero⟩ := (Formats.of_format h).zero_of_mem hfmt hout
  cases hy
  exact hx hzero

/-- A pair of '%' is printed as one, a conversion as the argument. -/
example : sprintf ("/d%%/%zu".toList.map chr) (7 : BitVec 32) = some ("/d%/7".toList.map chr) := by
  decide +kernel

end Sprintf

end Printf
