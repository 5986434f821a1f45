import DragonWare.Printf

/-!
# What formatted output prints

A format is text and conversion specifications, by the grammar of `printf` with the kernel's `%r`;
`%n` prints nothing and is left out. The reference replaces each specification by the words of the
stack it takes (`render`). The loop knows the conversions without modifiers (`Implemented`), and
takes no argument for any other, so that the last words are not read (`output_congr`).
-/

namespace DragonWare

open Directive Function Memory

section Reference

inductive Conversion
  | d | i | o | u | x | X | c | s | p | f | F | e | E | g | G | a | A | percent | r
  deriving DecidableEq, Repr

def Conversion.char : Conversion → BitVec 8
  | .d => ascii 'd'
  | .i => ascii 'i'
  | .o => ascii 'o'
  | .u => ascii 'u'
  | .x => ascii 'x'
  | .X => ascii 'X'
  | .c => ascii 'c'
  | .s => ascii 's'
  | .p => ascii 'p'
  | .f => ascii 'f'
  | .F => ascii 'F'
  | .e => ascii 'e'
  | .E => ascii 'E'
  | .g => ascii 'g'
  | .G => ascii 'G'
  | .a => ascii 'a'
  | .A => ascii 'A'
  | .percent => ascii '%'
  | .r => ascii 'r'

def Conversion.words (length : List (BitVec 8)) : Conversion → ℕ
  | .percent => 0
  | .c | .s | .p => 1
  | .d | .i | .o | .u | .x | .X => if length = literal "ll" ∨ length = literal "j" then 2 else 1
  | .r => 2
  | .f | .F | .e | .E | .g | .G | .a | .A => if length = literal "L" then 3 else 2

def IsField (s : List (BitVec 8)) : Prop := s = literal "*" ∨ ∀ c ∈ s, isdigit c = true

instance (s : List (BitVec 8)) : Decidable (IsField s) := inferInstanceAs (Decidable (_ ∨ _))

/-- A conversion specification, its parts as they are written behind the `%`. -/
structure Spec where
  flags : List (BitVec 8)
  width : List (BitVec 8)
  precision : List (BitVec 8)
  length : List (BitVec 8)
  conv : Conversion
  flags_mem : ∀ c ∈ flags, c ∈ literal "-+ #0"
  width_field : IsField width ∧ width.head? ≠ some (ascii '0')
  precision_field : precision = [] ∨ precision.head? = some (ascii '.') ∧ IsField precision.tail
  length_mem : length ∈ ["", "hh", "h", "l", "ll", "j", "z", "t", "L"].map literal
  bare : conv = .percent ∨ conv = .r → flags ++ width ++ precision ++ length = []

namespace Spec

variable (d : Spec)

def modifiers : List (BitVec 8) := d.flags ++ d.width ++ d.precision ++ d.length

def chars : List (BitVec 8) := ascii '%' :: (d.modifiers ++ [d.conv.char])

def plain (conv : Conversion) : Spec :=
  ⟨[], [], [], [], conv, by decide, by decide, by decide, by decide, fun _ => rfl⟩

/-- The words of the stack that are its arguments, one for each `*` and then the value. -/
def size : ℕ := d.modifiers.count (ascii '*') + d.conv.words d.length

end Spec

inductive Piece
  | text (c : BitVec 8) (h : c ≠ ascii '%')
  | directive (d : Spec)

def Piece.chars : Piece → List (BitVec 8)
  | .text c _ => [c]
  | .directive d => d.chars

def digits (base : ℕ) (upper : Bool) (n : ℕ) : List (BitVec 8) :=
  if n = 0 then [ascii '0'] else ((Nat.digits base n).map (digitChar upper)).reverse

def signedDigits (z : ℤ) : List (BitVec 8) :=
  if z < 0 then ascii '-' :: digits 10 false z.natAbs else digits 10 false z.natAbs

def VaList.drop (ap : VaList) (n : ℕ) : VaList := fun i => ap (i + n)

/-- A rendering of the specifications whose text does not matter below. -/
abbrev Renderer := (d : Spec) → (Fin d.size → BitVec 32) → List (BitVec 8)

variable (strings : Strings) (other : Renderer)

/-- What is printed for a value without modifiers. -/
def Conversion.text (ap : VaList) : Conversion → Option (List (BitVec 8))
  | .percent => some [ascii '%']
  | .c => some [(ap 0).setWidth 8]
  | .s => some (if ap 0 = 0 then literal "(null)" else (strings (ap 0)).chars)
  | .d | .i => some (signedDigits (ap 0).toInt)
  | .u => some (digits 10 false (ap 0).toNat)
  | .x => some (digits 16 false (ap 0).toNat)
  | .X => some (digits 16 true (ap 0).toNat)
  | .p => some (literal "0x" ++ digits 16 false (ap 0).toNat)
  | .r => some (literal "0x" ++ digits 16 false (ap 1 ++ ap 0).toNat)
  | _ => none

def Spec.render (d : Spec) (ap : VaList) : List (BitVec 8) :=
  if d.modifiers = [] then (d.conv.text strings ap).getD (other d fun i => ap i)
  else other d fun i => ap i

/-- The reference rendering, with the arguments on the stack. -/
def render : List Piece → VaList → List (BitVec 8)
  | [], _ => []
  | .text c _ :: ps, ap => c :: render ps ap
  | .directive d :: ps, ap => d.render strings other ap ++ render ps (ap.drop d.size)

def argWords : List Piece → ℕ
  | [] => 0
  | .text _ _ :: ps => argWords ps
  | .directive d :: ps => d.size + argWords ps

/-- The buffer has the first `maxsize - 1` characters of the text and a NUL, nothing is stored
behind it, and the count is that of all characters. -/
structure Prints (text : List (BitVec 8)) (maxsize : BitVec 32) (buf : Mem)
    (res : BitVec 32 × Mem) : Prop where
  outside : ∀ i, maxsize.toNat ≤ i → res.2 i = buf i
  chars : ∀ i, i < min text.length (maxsize.toNat - 1) → text[i]? = some (res.2 i)
  nul : res.2 (min text.length (maxsize.toNat - 1)) = 0
  count : res.1.toNat = text.length

/-- A directive of the `switch`, and no `%f`. -/
def Spec.Implemented (d : Spec) : Prop :=
  d.modifiers = [] ∧ d.conv ∈ [.percent, .c, .s, .d, .i, .u, .x, .X, .p, .r]

instance (d : Spec) : Decidable d.Implemented := inferInstanceAs (Decidable (_ ∧ _))

/-- The C library reads formats without `%r`. -/
def Reads (kernel : Bool) (ps : List Piece) : Prop :=
  kernel = false → ∀ d, .directive d ∈ ps → d.conv ≠ .r

/-- The rendering is printed, whatever the arguments and the size of the buffer. -/
def PrintsAll (printf : Strings → Mem → BitVec 32 → CString → VaList → BitVec 32 × Mem)
    (fmt : CString) (ps : List Piece) : Prop :=
  ∀ (ap : VaList) (buf : Mem) (maxsize : BitVec 32),
    (render strings other ps ap).length ≤ intMax.toNat → 0 < maxsize →
    Prints (render strings other ps ap) maxsize buf (printf strings buf maxsize fmt ap)

/-- Some arguments that differ in the last word only are rendered differently. -/
def LastShows (ps : List Piece) : Prop :=
  ∃ ap ap' : VaList, (∀ i, i + 1 < argWords ps → ap i = ap' i)
    ∧ (render strings other ps ap).length ≤ intMax.toNat
    ∧ (render strings other ps ap').length ≤ intMax.toNat
    ∧ render strings other ps ap ≠ render strings other ps ap'

end Reference

section Sink

variable {size : BitVec 32}

theorem bputc_idx (o : Sink) (c : BitVec 8) : (bputc size o c).idx = o.idx + 1 := rfl

theorem bputc_buf (hs : 0 < size.toNat) (o : Sink) (c : BitVec 8) (i : ℕ) :
    (bputc size o c).buf i = if i = o.idx.toNat ∧ i + 1 < size.toNat then c else o.buf i := by
  have hsub : (size - 1).toNat = size.toNat - 1 := by
    rw [BitVec.toNat_sub, show (1 : BitVec 32).toNat = 1 from rfl]
    have := size.isLt
    omega
  unfold bputc
  simp only [BitVec.lt_def, hsub, show (0 : BitVec 32).toNat = 0 from rfl, hs, true_and]
  by_cases hi : i = o.idx.toNat
  · subst hi
    by_cases hlt : o.idx.toNat < size.toNat - 1
    · rw [if_pos hlt, update_self, if_pos ⟨rfl, by omega⟩]
    · rw [if_neg hlt, if_neg (by omega)]
  have hne : ¬ (i = o.idx.toNat ∧ i + 1 < size.toNat) := fun h => hi h.1
  rw [if_neg hne]
  split_ifs
  · exact update_of_ne hi _ _
  · rfl

theorem putAll_spec (hs : 0 < size.toNat) : ∀ (text : List (BitVec 8)) (o : Sink),
    o.idx.toNat + text.length < 2 ^ 32 →
    (text.foldl (bputc size) o).idx.toNat = o.idx.toNat + text.length ∧
    ∀ i, (text.foldl (bputc size) o).buf i
      = if o.idx.toNat ≤ i ∧ i + 1 < size.toNat then (text[i - o.idx.toNat]?).getD (o.buf i)
        else o.buf i
  | [], o, _ => by
    refine ⟨rfl, fun i => ?_⟩
    simp
  | c :: text, o, h => by
    rw [List.length_cons] at h
    have hidx : (bputc size o c).idx.toNat = o.idx.toNat + 1 := by
      rw [bputc_idx, BitVec.toNat_add, show (1 : BitVec 32).toNat = 1 from rfl]
      omega
    obtain ⟨ih1, ih2⟩ := putAll_spec hs text (bputc size o c) (by rw [hidx]; omega)
    rw [List.foldl_cons]
    refine ⟨by rw [ih1, hidx, List.length_cons]; omega, fun i => ?_⟩
    rw [ih2, hidx, bputc_buf hs]
    by_cases hlt : i + 1 < size.toNat
    · rcases Nat.lt_trichotomy i o.idx.toNat with hi | hi | hi
      · rw [if_neg (by omega), if_neg (by omega), if_neg (by omega)]
      · rw [if_neg (by omega), if_pos ⟨hi, hlt⟩, if_pos ⟨hi.ge, hlt⟩, hi, Nat.sub_self]
        rfl
      · rw [if_pos ⟨hi, hlt⟩, if_neg (by omega), if_pos ⟨hi.le, hlt⟩,
          show i - o.idx.toNat = i - (o.idx.toNat + 1) + 1 by omega, List.getElem?_cons_succ]
    · rw [if_neg (by omega), if_neg (by omega), if_neg (by omega)]

end Sink

variable {base : ℕ}

section Digits

theorem fillBuf_eq {w base : ℕ} {upper : Bool} (hb : 2 ≤ base) (hw : base < 2 ^ w) :
    ∀ (room : ℕ) (v : BitVec w) (buf : List (BitVec 8)), v.toNat < base ^ room →
      fillBuf base upper room v buf = some (buf ++ (Nat.digits base v.toNat).map (digitChar upper))
  | 0, v, buf, h => by
    have hv : v = 0 := BitVec.eq_of_toNat_eq (by rw [pow_zero] at h; simpa using h)
    simp [fillBuf, hv]
  | room + 1, v, buf, h => by
    have hbase : (BitVec.ofNat w base).toNat = base := by
      rw [BitVec.toNat_ofNat, Nat.mod_eq_of_lt hw]
    unfold fillBuf
    split_ifs with hv
    · simp [hv]
    have hpos : 0 < v.toNat :=
      Nat.pos_of_ne_zero fun h0 => hv (BitVec.eq_of_toNat_eq (by simpa using h0))
    have hdiv : (v / BitVec.ofNat w base).toNat = v.toNat / base := by
      rw [BitVec.toNat_udiv, hbase]
    rw [fillBuf_eq hb hw room _ _ (by
      rw [hdiv, Nat.div_lt_iff_lt_mul (by omega)]
      rwa [pow_succ] at h), hdiv, BitVec.toNat_umod, hbase,
      Nat.digits_def' (by omega) hpos, List.map_cons, List.append_assoc, List.singleton_append]

theorem fillTmp_of_fillBuf {base : ℕ} {upper : Bool} {s : List (BitVec 8)} :
    ∀ (room : ℕ) {v : BitVec 64} {tmp : List (BitVec 8)},
      fillBuf base upper room v tmp = some s → fillTmp base upper room v tmp = s
  | 0, v, tmp, h => by
    unfold fillBuf at h
    split_ifs at h
    exact Option.some.inj h
  | room + 1, v, tmp, h => by
    unfold fillBuf at h
    unfold fillTmp
    split_ifs at h ⊢
    · exact Option.some.inj h
    · exact fillTmp_of_fillBuf room h

theorem bputudTmp_eq {v : BitVec 64} {upper : Bool} (hb : 2 ≤ base) (hb' : base ≤ 16) :
    bputudTmp v base upper = some (digits base upper v.toNat).reverse := by
  have hroom : v.toNat < base ^ 66 :=
    calc v.toNat < 2 ^ 64 := v.isLt
      _ ≤ 2 ^ 66 := by norm_num
      _ ≤ base ^ 66 := Nat.pow_le_pow_left hb 66
  unfold bputudTmp digits
  by_cases h : v = 0
  · simp [h]
  · have hv : v.toNat ≠ 0 := fun h0 => h (BitVec.eq_of_toNat_eq h0)
    rw [if_neg h, if_neg hv, fillBuf_eq hb (by omega) 66 v [] hroom, List.reverse_reverse]
    rfl

theorem bputud_eq {size : BitVec 32} {o : Sink} {v : BitVec 64} {upper : Bool} (hb : 2 ≤ base)
    (hb' : base ≤ 16) :
    bputud size o v base upper = (digits base upper v.toNat).foldl (bputc size) o := by
  have htmp : bputudTmp v base upper = _ := bputudTmp_eq hb hb'
  unfold bputudTmp at htmp
  unfold bputud
  rw [if_neg (by omega)]
  split_ifs at htmp ⊢
  · simp only [Option.some.inj htmp, List.reverse_reverse]
  · simp only [fillTmp_of_fillBuf 66 htmp, List.reverse_reverse]

end Digits

section Output

variable (strings : Strings)

def Spec.emit (d : Spec) (ap : VaList) : List (BitVec 8) :=
  if d.Implemented then d.render strings (fun _ _ => []) ap
  else if d.modifiers = [] ∧ d.conv = .f then []
  else d.chars

def Spec.taken (d : Spec) : ℕ := if d.Implemented then d.size else 0

def output : List Piece → VaList → List (BitVec 8)
  | [], _ => []
  | .text c _ :: ps, ap => c :: output ps ap
  | .directive d :: ps, ap => d.emit strings ap ++ output ps (ap.drop d.taken)

variable {size : BitVec 32} {kernel : Bool} {d : Spec}

theorem toNat_setWidth_64 (v : BitVec 32) : (v.setWidth 64).toNat = v.toNat := by
  rw [BitVec.toNat_setWidth]
  have := v.isLt
  omega

theorem toNat_neg_signExtend {v : BitVec 32} (h : v.toInt < 0) :
    (-(v.signExtend 64)).toNat = v.toInt.natAbs := by
  have hlt := v.isLt
  have hneg : 2 ^ 32 ≤ 2 * v.toNat := BitVec.toInt_neg_iff.1 h
  have hmsb : v.msb = true := by
    rw [BitVec.msb_eq_true_iff_two_mul_ge]
    exact hneg
  rw [BitVec.toNat_neg, BitVec.toNat_signExtend, hmsb, BitVec.toInt_eq_msb_cond, hmsb]
  simp only [if_true, BitVec.toNat_setWidth]
  omega

theorem putDirective_signed (ap : VaList) (o : Sink) : putDirective strings size .signed ap o
    = (ap.drop 1, (signedDigits (ap 0).toInt).foldl (bputc size) o) := by
  have h10 (o : Sink) (v : BitVec 64) : bputud size o v 10 false = _ :=
    bputud_eq (by omega) (by omega)
  unfold putDirective signedDigits VaList.word
  by_cases h : (ap 0).toInt < 0
  · have hslt : (ap 0).slt 0 = true := BitVec.slt_iff_toInt_lt.2 h
    simp only [if_pos h, if_pos hslt, h10, toNat_neg_signExtend h]
    rfl
  have hslt : ¬ (ap 0).slt 0 = true := fun hs => h (BitVec.slt_iff_toInt_lt.1 hs)
  have habs : (ap 0).toInt.natAbs = (ap 0).toNat := by
    rw [BitVec.toInt_eq_toNat_cond] at h ⊢
    have := (ap 0).isLt
    split_ifs at h ⊢ <;> omega
  simp only [if_neg h, if_neg hslt, h10, toNat_setWidth_64, habs]
  rfl

theorem putDirective_conv (size : BitVec 32) (kernel : Bool) {conv : Conversion}
    (hconv : conv ∈ [.percent, .c, .s, .d, .i, .u, .x, .X, .p, .r])
    (hr : kernel = false → conv ≠ .r) : ∃ k, ofChar kernel conv.char = some k ∧
      ∀ ap o, ∃ text, conv.text strings ap = some text ∧ putDirective strings size k ap o
        = (ap.drop (conv.words []), text.foldl (bputc size) o) := by
  have h10 (o : Sink) (v : BitVec 64) : bputud size o v 10 false = _ :=
    bputud_eq (by omega) (by omega)
  have h16 (o : Sink) (v : BitVec 64) (upper : Bool) : bputud size o v 16 upper = _ :=
    bputud_eq (by omega) (by omega)
  cases conv with
  | percent => exact ⟨.percent, by cases kernel <;> rfl, fun ap o => ⟨_, rfl, rfl⟩⟩
  | c => exact ⟨.char, by cases kernel <;> rfl, fun ap o => ⟨_, rfl, rfl⟩⟩
  | s =>
    refine ⟨.string, by cases kernel <;> rfl, fun ap o => ⟨_, rfl, ?_⟩⟩
    unfold putDirective VaList.word
    split_ifs <;> rfl
  | d => exact ⟨.signed, by cases kernel <;> rfl, fun ap o => ⟨_, rfl, putDirective_signed ..⟩⟩
  | i => exact ⟨.signed, by cases kernel <;> rfl, fun ap o => ⟨_, rfl, putDirective_signed ..⟩⟩
  | u =>
    refine ⟨.unsigned, by cases kernel <;> rfl, fun ap o => ⟨_, rfl, ?_⟩⟩
    simp only [putDirective, VaList.word, h10, toNat_setWidth_64]
    rfl
  | x =>
    refine ⟨.hex, by cases kernel <;> rfl, fun ap o => ⟨_, rfl, ?_⟩⟩
    simp only [putDirective, VaList.word, h16, toNat_setWidth_64]
    rfl
  | X =>
    refine ⟨.upperHex, by cases kernel <;> rfl, fun ap o => ⟨_, rfl, ?_⟩⟩
    simp only [putDirective, VaList.word, h16, toNat_setWidth_64]
    rfl
  | p =>
    refine ⟨.pointer, by cases kernel <;> rfl, fun ap o => ⟨_, rfl, ?_⟩⟩
    simp only [putDirective, VaList.word, h16, toNat_setWidth_64, List.foldl_append]
    rfl
  | r =>
    cases kernel with
    | false => exact absurd rfl (hr rfl)
    | true =>
      refine ⟨.longPointer, rfl, fun ap o => ⟨_, rfl, ?_⟩⟩
      simp only [putDirective, VaList.dword, h16, List.foldl_append]
      rfl
  | _ => exact absurd hconv (by decide)

theorem putFormat_text {s : List (BitVec 8)} (hs : ∀ c ∈ s, c ≠ ascii '%')
    (fmt : List (BitVec 8)) (ap : VaList) (o : Sink) : putFormat strings size kernel (s ++ fmt) ap o
      = putFormat strings size kernel fmt ap (s.foldl (bputc size) o) := by
  induction s generalizing o with
  | nil => rfl
  | cons c s ih =>
    obtain ⟨hc, hs⟩ := List.forall_mem_cons.1 hs
    rw [List.foldl_cons, ← ih hs]
    cases h : s ++ fmt with
    | nil => simp [putFormat, h, hc]
    | cons k rest => simp only [List.cons_append, h, putFormat, if_pos hc]

theorem Spec.modifiers_mem {c : BitVec 8} (h : c ∈ d.modifiers) :
    c ∈ literal "-+ #0123456789*.hljztL" := by
  have hdigit : ∀ c, isdigit c = true → c ∈ literal "-+ #0123456789*.hljztL" := by decide
  have hfield {s : List (BitVec 8)} (hs : IsField s) (h : c ∈ s) :
      c ∈ literal "-+ #0123456789*.hljztL" := by
    rcases hs with rfl | hs
    · exact (by decide : ∀ c ∈ literal "*", c ∈ literal "-+ #0123456789*.hljztL") c h
    · exact hdigit c (hs c h)
  simp only [modifiers, List.mem_append] at h
  obtain ((h | h) | h) | h := h
  · exact (by decide : ∀ c ∈ literal "-+ #0", c ∈ literal "-+ #0123456789*.hljztL") c
      (d.flags_mem c h)
  · exact hfield d.width_field.1 h
  · rcases d.precision_field with hp | ⟨hp, hf⟩
    · rw [hp] at h
      cases h
    · rw [← List.cons_head?_tail hp, List.mem_cons] at h
      rcases h with rfl | h
      · decide
      · exact hfield hf h
  · exact (by decide : ∀ s ∈ ["", "hh", "h", "l", "ll", "j", "z", "t", "L"].map literal,
      ∀ c ∈ s, c ∈ literal "-+ #0123456789*.hljztL") _ d.length_mem c h

theorem Spec.chars_eq (kernel : Bool) (hd : ¬ d.Implemented)
    (hf : ¬ (d.modifiers = [] ∧ d.conv = .f)) :
    ∃ k s, d.chars = ascii '%' :: k :: s ∧ ofChar kernel k = none ∧ ∀ c ∈ s, c ≠ ascii '%' := by
  have hmod : ∀ c ∈ literal "-+ #0123456789*.hljztL",
      ofChar kernel c = none ∧ c ≠ ascii '%' := by
    cases kernel <;> decide
  unfold chars
  cases hm : d.modifiers with
  | nil =>
    refine ⟨d.conv.char, [], rfl, ?_, fun c hc => by cases hc⟩
    have hno : d.conv ∉ [.percent, .c, .s, .d, .i, .u, .x, .X, .p, .r] := fun h => hd ⟨hm, h⟩
    have hnf : d.conv ≠ .f := fun h => hf ⟨hm, h⟩
    revert hno hnf
    cases d.conv <;> cases kernel <;> decide
  | cons k s =>
    have hmem (c : BitVec 8) (hc : c ∈ k :: s) := hmod c (modifiers_mem (hm ▸ hc))
    refine ⟨k, s ++ [d.conv.char], rfl, (hmem k List.mem_cons_self).1, fun c hc => ?_⟩
    rcases List.mem_append.1 hc with hc | hc
    · exact (hmem c (List.mem_cons_of_mem _ hc)).2
    · have hconv : d.conv ≠ .percent := fun h => by
        rw [modifiers, d.bare (.inl h)] at hm
        cases hm
      obtain rfl := List.mem_singleton.1 hc
      revert hconv
      cases d.conv <;> decide

theorem Spec.size_of_implemented (hd : d.Implemented) : d.size = d.conv.words [] := by
  have hlength : d.length = [] := (List.append_eq_nil_iff.1 hd.1).2
  rw [size, hd.1, hlength, List.count_nil, Nat.zero_add]

theorem putFormat_spec (hr : kernel = false → d.conv ≠ .r) (fmt : List (BitVec 8)) (ap : VaList)
    (o : Sink) : putFormat strings size kernel (d.chars ++ fmt) ap o
      = putFormat strings size kernel fmt (ap.drop d.taken)
          ((d.emit strings ap).foldl (bputc size) o) := by
  unfold Spec.emit Spec.taken
  by_cases hd : d.Implemented
  · obtain ⟨k, hk, hput⟩ := putDirective_conv strings size kernel hd.2 hr
    obtain ⟨text, htext, hput⟩ := hput ap o
    have hchars : d.chars ++ fmt = ascii '%' :: d.conv.char :: fmt := by
      unfold Spec.chars
      rw [hd.1]
      rfl
    rw [if_pos hd, if_pos hd, hchars, putFormat, if_neg (not_not.2 rfl),
      Spec.size_of_implemented hd, Spec.render, if_pos hd.1, htext]
    simp only [hk, hput, Option.getD_some]
  rw [if_neg hd, if_neg hd]
  split_ifs with hf
  · have hchars : d.chars ++ fmt = ascii '%' :: ascii 'f' :: fmt := by
      unfold Spec.chars
      rw [hf.1, hf.2]
      rfl
    have hk : ofChar kernel (ascii 'f') = some .float := by cases kernel <;> rfl
    rw [hchars, putFormat, if_neg (not_not.2 rfl)]
    simp only [hk]
    rfl
  · obtain ⟨k, s, hchars, hk, hs⟩ := Spec.chars_eq kernel hd hf
    rw [hchars, List.cons_append, List.cons_append, putFormat, if_neg (not_not.2 rfl)]
    simp only [hk]
    exact putFormat_text strings hs fmt ap _

theorem putFormat_eq : ∀ (ps : List Piece) (ap : VaList) (o : Sink), Reads kernel ps →
    putFormat strings size kernel (ps.flatMap Piece.chars) ap o
      = (output strings ps ap).foldl (bputc size) o
  | [], _, _, _ => rfl
  | .text c hc :: ps, ap, o, hr => by
    have hps : Reads kernel ps := fun hk d hd => hr hk d (List.mem_cons_of_mem _ hd)
    rw [List.flatMap_cons, Piece.chars, putFormat_text strings (by simpa using hc),
      putFormat_eq ps _ _ hps]
    rfl
  | .directive d :: ps, ap, o, hr => by
    have hps : Reads kernel ps := fun hk d hd => hr hk d (List.mem_cons_of_mem _ hd)
    rw [List.flatMap_cons, Piece.chars,
      putFormat_spec strings fun hk => hr hk d List.mem_cons_self, putFormat_eq ps _ _ hps, output,
      List.foldl_append]

variable (other : Renderer)

theorem Spec.emit_eq (hd : d.Implemented) (ap : VaList) :
    d.emit strings ap = d.render strings other ap := by
  obtain ⟨k, -, hput⟩ := putDirective_conv strings 0 true hd.2
    fun h => absurd h (by decide)
  obtain ⟨text, htext, -⟩ := hput ap ⟨fun _ => 0, 0⟩
  unfold emit render
  rw [if_pos hd, if_pos hd.1, if_pos hd.1, htext, Option.getD_some, Option.getD_some]

theorem output_eq_render : ∀ (ps : List Piece) (ap : VaList),
    (∀ d, .directive d ∈ ps → d.Implemented) → output strings ps ap = render strings other ps ap
  | [], _, _ => rfl
  | .text c _ :: ps, ap, h => by
    rw [output, render, output_eq_render ps ap fun d hd => h d (List.mem_cons_of_mem _ hd)]
  | .directive d :: ps, ap, h => by
    have hd := h d List.mem_cons_self
    rw [output, render, Spec.emit_eq strings other hd, Spec.taken, if_pos hd,
      output_eq_render ps _ fun d hd => h d (List.mem_cons_of_mem _ hd)]

def takenWords : List Piece → ℕ
  | [] => 0
  | .text _ _ :: ps => takenWords ps
  | .directive d :: ps => d.taken + takenWords ps

theorem Spec.size_pos (hd : ¬ d.Implemented) : 0 < d.size := by
  have hp : d.conv ≠ .percent := fun hp =>
    hd ⟨d.bare (.inl hp), by rw [hp]; decide⟩
  have hwords : 0 < d.conv.words d.length := by
    unfold Conversion.words
    split
    next h => exact absurd h hp
    all_goals first | omega | (split_ifs <;> omega)
  exact Nat.add_pos_right _ hwords

theorem takenWords_le : ∀ ps : List Piece, takenWords ps ≤ argWords ps ∧
    ((∃ d, .directive d ∈ ps ∧ ¬ d.Implemented) → takenWords ps < argWords ps)
  | [] => ⟨le_rfl, fun ⟨_, h, _⟩ => by cases h⟩
  | .text _ _ :: ps => by
    obtain ⟨ih, ih'⟩ := takenWords_le ps
    refine ⟨ih, fun ⟨d, hmem, hd⟩ => ih' ⟨d, ?_, hd⟩⟩
    simpa using hmem
  | .directive d :: ps => by
    obtain ⟨ih, ih'⟩ := takenWords_le ps
    unfold takenWords argWords Spec.taken
    by_cases hd : d.Implemented
    · rw [if_pos hd]
      refine ⟨by omega, fun ⟨e, hmem, he⟩ => ?_⟩
      have := ih' ⟨e, (List.mem_cons.1 hmem).resolve_left (by rintro ⟨⟩; exact he hd), he⟩
      omega
    · have := Spec.size_pos hd
      rw [if_neg hd]
      exact ⟨by omega, fun _ => by omega⟩

theorem Spec.emit_congr {ap ap' : VaList} (h : ∀ i < d.taken, ap i = ap' i) :
    d.emit strings ap = d.emit strings ap' := by
  unfold emit
  by_cases hd : d.Implemented
  · rw [taken, if_pos hd, size_of_implemented hd] at h
    rw [if_pos hd, if_pos hd, render, render, if_pos hd.1, if_pos hd.1]
    have htext : d.conv.text strings ap = d.conv.text strings ap' := by
      cases hc : d.conv <;> rw [hc] at h <;> unfold Conversion.text
      case r => rw [h 0 (by decide), h 1 (by decide)]
      all_goals first | rfl | rw [h 0 (by decide)]
    rw [htext]
  · rw [if_neg hd, if_neg hd]

theorem output_congr : ∀ (ps : List Piece) {ap ap' : VaList},
    (∀ i < takenWords ps, ap i = ap' i) → output strings ps ap = output strings ps ap'
  | [], _, _, _ => rfl
  | .text c _ :: ps, ap, ap', h => by
    rw [output, output, output_congr ps h]
  | .directive d :: ps, ap, ap', h => by
    rw [output, output, Spec.emit_congr strings fun i hi => h i (Nat.lt_add_right _ hi)]
    refine congrArg _ (output_congr ps fun i hi => h _ ?_)
    rw [takenWords]
    omega

end Output

section Buffer

variable {strings : Strings} {kernel : Bool} {ps : List Piece}

theorem formatInto_prints (strings : Strings) (kernel : Bool) (fmt : CString)
    (hfmt : fmt.chars = ps.flatMap Piece.chars) (hr : Reads kernel ps) (ap : VaList) (buf : Mem)
    {maxsize : BitVec 32} (hmax : 0 < maxsize)
    (hlen : (output strings ps ap).length ≤ intMax.toNat) :
    Prints (output strings ps ap) maxsize buf (formatInto kernel strings buf maxsize fmt ap) := by
  obtain ⟨text, htext⟩ : ∃ t, t = output strings ps ap := ⟨_, rfl⟩
  rw [← htext] at hlen ⊢
  have hpos : 0 < maxsize.toNat := BitVec.lt_def.1 hmax
  have hlt := maxsize.isLt
  have hint : intMax.toNat = 2 ^ 31 - 1 := rfl
  obtain ⟨o, ho⟩ : ∃ o, o = text.foldl (bputc maxsize) ⟨buf, 0⟩ := ⟨_, rfl⟩
  obtain ⟨hidx, hbuf⟩ := putAll_spec hpos text ⟨buf, 0⟩ (by
    show 0 + text.length < 2 ^ 32
    omega)
  rw [← ho] at hidx hbuf
  simp only [show (0 : BitVec 32).toNat = 0 from rfl, Nat.zero_add, Nat.zero_le, true_and,
    Nat.sub_zero] at hidx hbuf
  have hres : formatInto kernel strings buf maxsize fmt ap = (o.idx,
      update o.buf (min text.length (maxsize.toNat - 1)) 0) := by
    have hsub : (maxsize - 1).toNat = maxsize.toNat - 1 := by
      rw [BitVec.toNat_sub, show (1 : BitVec 32).toNat = 1 from rfl]
      omega
    have hat : (if maxsize ≤ o.idx then maxsize - 1 else o.idx).toNat
        = min text.length (maxsize.toNat - 1) := by
      split_ifs with h <;> rw [BitVec.le_def] at h <;> omega
    have hmin : ¬ intMax < o.idx := fun h => by
      rw [BitVec.lt_def] at h
      omega
    unfold formatInto
    simp only [hfmt, putFormat_eq strings ps _ _ hr, ← htext, ← ho, if_pos hmax, hat, if_neg hmin]
  rw [hres]
  refine ⟨fun i hi => ?_, fun i hi => ?_, update_self _ _ _, hidx⟩
  · show update o.buf _ 0 i = buf i
    rw [update_of_ne (by omega), hbuf, if_neg (by omega)]
  · show text[i]? = some (update o.buf _ 0 i)
    have hget := List.getElem?_eq_getElem (show i < text.length by omega)
    rw [update_of_ne (by omega), hbuf, if_pos (by omega), hget]
    rfl

theorem Prints.text_eq {text text' : List (BitVec 8)} {maxsize : BitVec 32} {buf : Mem}
    {res : BitVec 32 × Mem} (h : Prints text maxsize buf res) (h' : Prints text' maxsize buf res)
    (hlt : text.length < maxsize.toNat) : text = text' := by
  have hlen := h.count.symm.trans h'.count
  refine List.ext_getElem? fun i => ?_
  by_cases hi : i < text.length
  · rw [h.chars i (by omega), h'.chars i (by omega)]
  · rw [List.getElem?_eq_none (by omega), List.getElem?_eq_none (by omega)]

variable {other : Renderer} {fmt : CString}

section

variable (hfmt : fmt.chars = ps.flatMap Piece.chars) (hr : Reads kernel ps)

include hfmt hr

theorem formatInto_printsAll (h : ∀ d, .directive d ∈ ps → d.Implemented) :
    PrintsAll strings other (formatInto kernel) fmt ps := by
  intro ap buf maxsize hlen hmax
  rw [← output_eq_render strings other ps ap h] at hlen ⊢
  exact formatInto_prints strings kernel fmt hfmt hr ap buf hmax hlen

/-- What is printed does not depend on the last word, which no case of the `switch` reads. -/
theorem not_formatInto_printsAll (hd : ∃ d, .directive d ∈ ps ∧ ¬ d.Implemented)
    (hlast : LastShows strings other ps) :
    ¬ PrintsAll strings other (formatInto kernel) fmt ps := by
  intro hall
  obtain ⟨ap, ap', hap, hlen, hlen', hne⟩ := hlast
  have hlt := (takenWords_le ps).2 hd
  have hout : output strings ps ap = output strings ps ap' :=
    output_congr strings ps fun i hi => hap i (by omega)
  have hsize : ∀ n ≤ intMax.toNat, n < (0xFFFFFFFF : BitVec 32).toNat := fun n hn =>
    hn.trans_lt (by decide)
  have hpos : 0 < (0xFFFFFFFF : BitVec 32) := by decide
  have h := hall ap (fun _ => 0) _ hlen hpos
  have h' := hall ap' (fun _ => 0) _ hlen' hpos
  have hres : formatInto kernel strings (fun _ => 0) 0xFFFFFFFF fmt ap
      = formatInto kernel strings (fun _ => 0) 0xFFFFFFFF fmt ap' := by
    unfold formatInto
    simp only [hfmt, putFormat_eq strings ps _ _ hr, hout]
  rw [hres] at h
  exact hne (h.text_eq h' (hsize _ hlen))

end

/-- Both functions print the rendering of a format whose directives are all implemented, and of no
other one whose last argument shows. -/
theorem vsnprintf_prints_iff (strings : Strings) (other : Renderer) (ps : List Piece)
    (fmt : CString) (hfmt : fmt.chars = ps.flatMap Piece.chars) :
    ((∀ d, .directive d ∈ ps → d.Implemented) →
      PrintsAll strings other vsnprintf fmt ps ∧
      ((∀ d, .directive d ∈ ps → d.conv ≠ .r) → PrintsAll strings other libcVsnprintf fmt ps)) ∧
    ((∃ d, .directive d ∈ ps ∧ ¬ d.Implemented) → LastShows strings other ps →
      ¬ PrintsAll strings other vsnprintf fmt ps ∧
      ((∀ d, .directive d ∈ ps → d.conv ≠ .r) →
        ¬ PrintsAll strings other libcVsnprintf fmt ps)) := by
  have hk : Reads true ps := fun h => absurd h (by decide)
  refine ⟨fun h => ⟨formatInto_printsAll hfmt hk h, fun hr => ?_⟩,
    fun hd hlast => ⟨not_formatInto_printsAll hfmt hk hd hlast, fun hr => ?_⟩⟩
  · exact formatInto_printsAll hfmt (fun _ => hr) h
  · exact not_formatInto_printsAll hfmt (fun _ => hr) hd hlast

def noStrings : Strings := fun _ => ⟨[], List.not_mem_nil⟩

def VaList.ofList (ws : List (BitVec 32)) : VaList := fun i => ws.getD i 0

theorem vsnprintf_prints_iff_most_negative :
    Prints (literal "-2147483648") 5 (fun _ => 0xFF) (vsnprintf noStrings (fun _ => 0xFF) 5
      ⟨literal "%d", by decide⟩ (.ofList [0x80000000])) := by
  have hrender : render noStrings (fun _ _ => []) [.directive (.plain .d)] (.ofList [0x80000000])
      = literal "-2147483648" := by
    have hz : (0x80000000 : BitVec 32).toInt = -2147483648 := by decide
    show signedDigits (0x80000000 : BitVec 32).toInt ++ [] = _
    rw [hz, List.append_nil]
    unfold signedDigits digits
    norm_num
    decide
  have h := ((vsnprintf_prints_iff noStrings (fun _ _ => []) [.directive (.plain .d)]
    ⟨literal "%d", by decide⟩ rfl).1 fun d hd => by
      obtain rfl := Piece.directive.inj (List.mem_singleton.1 hd)
      decide).1 (.ofList [0x80000000]) (fun _ => 0xFF) 5
  rw [hrender] at h
  exact h (by decide) (by decide)

def longUnsigned : Spec :=
  ⟨[], [], [], literal "ll", .u, by decide, by decide, by decide, by decide, by decide⟩

def unsignedValue : Renderer := fun _ ws =>
  digits 10 false (Nat.ofDigits (2 ^ 32) (List.ofFn fun i => (ws i).toNat))

/-- The argument 7 is not printed, but the directive is, and its four characters are counted. -/
theorem not_vsnprintf_prints :
    render noStrings unsignedValue [.directive longUnsigned] (.ofList [7, 0]) = literal "7"
    ∧ (vsnprintf noStrings (fun _ => 0xFF) 16 ⟨literal "%llu", by decide⟩ (.ofList [7, 0])).1 = 4
    ∧ (libcVsnprintf noStrings (fun _ => 0xFF) 16 ⟨literal "%llu", by decide⟩
      (.ofList [7, 0])).1 = 4
    ∧ ¬ PrintsAll noStrings unsignedValue vsnprintf ⟨literal "%llu", by decide⟩
      [.directive longUnsigned]
    ∧ ¬ PrintsAll noStrings unsignedValue libcVsnprintf ⟨literal "%llu", by decide⟩
      [.directive longUnsigned] := by
  have hrender : render noStrings unsignedValue [.directive longUnsigned] (.ofList [7, 0])
      = literal "7" := by
    show digits 10 false (Nat.ofDigits (2 ^ 32) [7, 0]) ++ [] = _
    simp only [Nat.ofDigits, digits]
    norm_num
    decide
  have hno {printf : Strings → Mem → BitVec 32 → CString → VaList → BitVec 32 × Mem}
      (hfour : (printf noStrings (fun _ => 0xFF) 16 ⟨literal "%llu", by decide⟩
        (.ofList [7, 0])).1 = 4) : ¬ PrintsAll noStrings unsignedValue printf
          ⟨literal "%llu", by decide⟩ [.directive longUnsigned] := by
    intro h
    have h := h (.ofList [7, 0]) (fun _ => 0xFF) 16
    rw [hrender] at h
    have hcount := (h (by decide) (by decide)).count
    rw [hfour] at hcount
    exact absurd hcount (by decide)
  exact ⟨hrender, by decide, by decide, hno (by decide), hno (by decide)⟩

end Buffer

/-! ### Round trips -/

section Conversions

end Conversions

end DragonWare
