-- The spellings of a signature of a device key: 64 bytes, of which the second
-- half may stand for its negative, and DER. Each signature has one canonical
-- spelling of each kind, the same for the client and for the service.
import Licensecc.Codec.Der
import Licensecc.Codec.Frames
import Licensecc.Codec.Json
import Licensecc.Failure

open Licensecc.Codec

namespace Licensecc.Identity

/-! ## The client -/

/-- `std::array<std::uint8_t, 64>`, the scalar `r` and then the scalar `s`. -/
abbrev P256Signature := { bytes : Bytes // bytes.length = 64 }

def kP256Order : Bytes := [
  0xff, 0xff, 0xff, 0xff, 0x00, 0x00, 0x00, 0x00, 0xff, 0xff, 0xff, 0xff, 0xff, 0xff, 0xff, 0xff,
  0xbc, 0xe6, 0xfa, 0xad, 0xa7, 0x17, 0x9e, 0x84, 0xf3, 0xb9, 0xca, 0xc2, 0xfc, 0x63, 0x25, 0x51]

/-- `signature.data()`, up to the second scalar -/
def P256Signature.r (signature : P256Signature) : Bytes := signature.val.take 32

/-- `signature.data() + 32U` -/
def P256Signature.s (signature : P256Signature) : Bytes := signature.val.drop 32

def scalar_in_range (scalar : Bytes) : Bool :=
  scalar.any (· ≠ 0) && lexicographical_compare scalar kP256Order

def p1363_signature_in_range (signature : P256Signature) : Bool :=
  scalar_in_range signature.r && scalar_in_range signature.s

/-- The loop of `p1363_signature_is_low_s`: each byte after the bit that the one before it left. -/
def halfLoop (carry : Nat) : Bytes → Bytes
  | [] => []
  | b :: bs => UInt8.ofNat (carry <<< 7 ||| b.toNat >>> 1) :: halfLoop (b.toNat &&& 1) bs

def p1363_signature_is_low_s (signature : P256Signature) : Bool :=
  if ¬ p1363_signature_in_range signature then false
  else !lexicographical_compare (halfLoop 0 kP256Order) signature.s

/-- The loop of `normalize_p1363_low_s`, which starts at the last byte: the bytes
of the difference, and what is borrowed from the byte before them. -/
def differenceLoop : Bytes → Bytes → Bytes × Nat
  | n :: order, s :: scalar =>
    let (candidate, borrow) := differenceLoop order scalar
    let difference : Int := n.toNat - s.toNat - borrow
    (UInt8.ofInt difference :: candidate, if difference < 0 then 1 else 0)
  | _, _ => ([], 0)

theorem length_differenceLoop {order scalar : Bytes} (h : order.length = scalar.length) :
    (differenceLoop order scalar).1.length = order.length := by
  induction order generalizing scalar with
  | nil => simp [differenceLoop]
  | cons n order ih =>
    cases scalar with
    | nil => simp at h
    | cons s scalar => simp [differenceLoop, ih (Nat.succ.inj h)]

theorem P256Signature.length_r (signature : P256Signature) : signature.r.length = 32 := by
  unfold P256Signature.r
  rw [List.length_take, signature.property]
  rfl

theorem P256Signature.length_s (signature : P256Signature) : signature.s.length = 32 := by
  unfold P256Signature.s
  rw [List.length_drop, signature.property]

/-- The signature of two scalars. -/
def ofScalars (r s : Bytes) (h : r.length = 32 ∧ s.length = 32) : P256Signature :=
  ⟨r ++ s, by rw [List.length_append, h.1, h.2]⟩

def normalize_p1363_low_s (signature : P256Signature) : Option P256Signature :=
  if ¬ p1363_signature_in_range signature then none
  else if ¬ p1363_signature_is_low_s signature then
    some (ofScalars signature.r (differenceLoop kP256Order signature.s).1
      ⟨signature.length_r, length_differenceLoop signature.length_s.symm⟩)
  else some signature

/-! ## DER of the client -/

/-- The magnitude of the integer at the start of some bytes, and the bytes after it. -/
def read_der_integer : Bytes → Option (Bytes × Bytes)
  | tag :: encoded_size :: rest =>
    if tag ≠ 0x02 then none
    else if encoded_size = 0 ∨ 0x80 ≤ encoded_size ∨ rest.length < encoded_size.toNat then none
    else do
      let magnitude ← magnitudeOf (rest.take encoded_size.toNat)
      if magnitude.length = 0 ∨ 32 < magnitude.length then none
      else return (magnitude, rest.drop encoded_size.toNat)
  | _ => none

/-- The loop of `append_der_integer`, which leaves the last byte. -/
def skipFirst : Bytes → Bytes
  | b :: c :: scalar => if b = 0 then skipFirst (c :: scalar) else b :: c :: scalar
  | scalar => scalar

/-- What `append_der_integer` appends. -/
def append_der_integer (scalar : Bytes) : Bytes :=
  let magnitude := skipFirst scalar
  let protect_sign := (magnitude.getD 0 0).toNat &&& 0x80 ≠ 0
  0x02 :: UInt8.ofNat (magnitude.length + if protect_sign then 1 else 0) ::
    ((if protect_sign then [0] else []) ++ magnitude)

/-- 32 zeros, the last ones of which a magnitude is copied over. -/
def copyMagnitude (magnitude : Bytes) : Bytes :=
  (List.replicate 32 0 ++ magnitude).drop magnitude.length

theorem length_copyMagnitude (magnitude : Bytes) : (copyMagnitude magnitude).length = 32 := by
  unfold copyMagnitude
  rw [List.length_drop, List.length_append, List.length_replicate, Nat.add_sub_cancel]

def der_signature_to_p1363 : Bytes → Option P256Signature
  | tag :: body_size :: body => do
    if (tag :: body_size :: body).length < 8 ∨ 72 < (tag :: body_size :: body).length ∨ tag ≠ 0x30 ∨
        0x80 ≤ body_size ∨ body_size.toNat + 2 ≠ (tag :: body_size :: body).length then none
    else
      let (r, body) ← read_der_integer body
      let (s, body) ← read_der_integer body
      if body ≠ [] then none
      else
        let candidate := ofScalars (copyMagnitude r) (copyMagnitude s)
          ⟨length_copyMagnitude r, length_copyMagnitude s⟩
        if ¬ p1363_signature_in_range candidate then none else some candidate
  | _ => none

def p1363_signature_to_der (signature : P256Signature) : Option Bytes :=
  if ¬ p1363_signature_in_range signature then none
  else
    let body := append_der_integer signature.r ++ append_der_integer signature.s
    some (0x30 :: UInt8.ofNat body.length :: body)

/-! ## The service -/

def curveOrder : Nat := 0xffffffff00000000ffffffffffffffffbce6faada7179e84f3b9cac2fc632551

/-- `n.toString(16)` -/
def toString16 (n : Nat) : List Char :=
  if n = 0 then ['0'] else (Nat.digits 16 n).reverse.map hexDigit

/-- `s.padStart(size, "0")` -/
def padStart (size : Nat) (s : List Char) : List Char :=
  List.replicate (size - s.length) '0' ++ s

/-- The number of some digits of base 16: `BigInt` after `0x`, and `parseInt(s, 16)`. -/
def parse16 (s : List Char) : Nat := s.foldl (fun n c => 16 * n + hexValue c) 0

def scalar (bytes : Bytes) : Nat :=
  parse16 (bytes.flatMap fun byte => padStart 2 (toString16 byte.toNat))

/-- What the loop of `normalizeDeviceSignature` writes for the digits `hex`. -/
def hexBytes (count : Nat) (hex : List Char) : Bytes :=
  (List.range count).map fun i => UInt8.ofNat (parse16 ((hex.drop (i * 2)).take 2))

def normalizeDeviceSignature (signature : Bytes) : Except String Bytes := do
  ensure (signature.length = 64) "invalid_signature"
  let r := scalar (signature.take 32)
  let s := scalar (signature.drop 32)
  ensure (¬ (r = 0 ∨ curveOrder ≤ r ∨ s = 0 ∨ curveOrder ≤ s)) "invalid_signature"
  let normalized := if curveOrder / 2 < s then curveOrder - s else s
  let hex := padStart 64 (toString16 normalized)
  return signature.take 32 ++ hexBytes 32 hex

/-! ## Scalars -/

set_option maxRecDepth 4000 in
theorem natural_order : natural kP256Order = curveOrder := by decide

theorem natural_half : natural (halfLoop 0 kP256Order) = curveOrder / 2 ∧
    (halfLoop 0 kP256Order).length = 32 := by decide

/-- The scalars that the curve has. -/
def InRange (n : Nat) : Prop := 1 ≤ n ∧ n < curveOrder

theorem scalar_in_range_iff {scalar : Bytes} (h : scalar.length = 32) :
    scalar_in_range scalar = true ↔ InRange (natural scalar) := by
  have hzero : scalar.any (· ≠ 0) = true ↔ natural scalar ≠ 0 := by
    rw [Ne, natural_eq_zero_iff]
    simp
  unfold scalar_in_range InRange
  rw [Bool.and_eq_true, hzero, lexicographical_compare_iff (h.trans rfl), natural_order,
    Nat.one_le_iff_ne_zero]

theorem p1363_signature_in_range_iff {signature : P256Signature} :
    p1363_signature_in_range signature = true ↔
      InRange (natural signature.r) ∧ InRange (natural signature.s) := by
  unfold p1363_signature_in_range
  rw [Bool.and_eq_true, scalar_in_range_iff signature.length_r,
    scalar_in_range_iff signature.length_s]

theorem p1363_signature_is_low_s_iff {signature : P256Signature} :
    p1363_signature_is_low_s signature = true ↔
      (InRange (natural signature.r) ∧ InRange (natural signature.s)) ∧
        natural signature.s ≤ curveOrder / 2 := by
  have hlow : lexicographical_compare (halfLoop 0 kP256Order) signature.s = true ↔
      curveOrder / 2 < natural signature.s := by
    rw [lexicographical_compare_iff (natural_half.2.trans signature.length_s.symm), natural_half.1]
  unfold p1363_signature_is_low_s
  rw [← p1363_signature_in_range_iff]
  by_cases hr : p1363_signature_in_range signature = true
  · rw [if_neg (not_not.mpr hr), Bool.not_eq_true', Bool.eq_false_iff, Ne, hlow, Nat.not_lt]
    simp [hr]
  · simp [hr]

/-! ## The difference -/

/-- What the bytes of the difference lack is what was borrowed. -/
theorem natural_differenceLoop {order scalar : Bytes} (h : order.length = scalar.length) :
    natural (differenceLoop order scalar).1 + natural scalar =
      natural order + (differenceLoop order scalar).2 * 256 ^ order.length ∧
    (differenceLoop order scalar).2 ≤ 1 := by
  induction order generalizing scalar with
  | nil =>
    cases scalar with
    | nil => simp [differenceLoop]
    | cons s scalar => simp at h
  | cons n order ih =>
    cases scalar with
    | nil => simp at h
    | cons s scalar =>
      have hlen : order.length = scalar.length := Nat.succ.inj h
      obtain ⟨hsum, hborrow⟩ := ih hlen
      have hlenc := length_differenceLoop hlen
      have hn := n.toNat_lt
      have hs := s.toNat_lt
      unfold differenceLoop
      generalize hloop : differenceLoop order scalar = loop at hsum hborrow hlenc ⊢
      obtain ⟨candidate, borrow⟩ := loop
      dsimp only at hsum hborrow hlenc ⊢
      have hdigit : (UInt8.ofInt ((n.toNat : Int) - s.toNat - borrow)).toNat + s.toNat + borrow =
          n.toNat + (if (n.toNat : Int) - s.toNat - borrow < 0 then 1 else 0) * 256 := by
        unfold UInt8.ofInt
        rw [UInt8.toNat_ofNat']
        split <;> omega
      refine ⟨?_, by split <;> omega⟩
      rw [natural_cons, natural_cons, natural_cons, hlenc, ← hlen, List.length_cons, pow_succ]
      generalize (UInt8.ofInt ((n.toNat : Int) - s.toNat - borrow)).toNat = d at hdigit ⊢
      generalize (if (n.toNat : Int) - s.toNat - borrow < 0 then 1 else 0) = b at hdigit ⊢
      calc d * 256 ^ order.length + natural candidate + (s.toNat * 256 ^ order.length + natural scalar)
          = (d + s.toNat) * 256 ^ order.length + (natural candidate + natural scalar) := by ring
        _ = (d + s.toNat) * 256 ^ order.length + (natural order + borrow * 256 ^ order.length) := by
          rw [hsum]
        _ = (d + s.toNat + borrow) * 256 ^ order.length + natural order := by ring
        _ = (n.toNat + b * 256) * 256 ^ order.length + natural order := by rw [hdigit]
        _ = n.toNat * 256 ^ order.length + natural order + b * (256 ^ order.length * 256) := by ring

theorem natural_difference {scalar : Bytes} (hlen : scalar.length = 32)
    (h : natural scalar < curveOrder) :
    natural (differenceLoop kP256Order scalar).1 = curveOrder - natural scalar := by
  have hlen' : kP256Order.length = scalar.length := hlen.symm
  obtain ⟨hsum, hborrow⟩ := natural_differenceLoop hlen'
  have hlt := natural_lt (differenceLoop kP256Order scalar).1
  rw [length_differenceLoop hlen'] at hlt
  rw [natural_order] at hsum
  generalize (differenceLoop kP256Order scalar).2 = borrow at hsum hborrow
  have hpow : kP256Order.length = 32 := rfl
  rw [hpow] at hsum hlt
  -- nothing is borrowed in the end, or the difference would have too many bytes
  rcases Nat.le_one_iff_eq_zero_or_eq_one.mp hborrow with rfl | rfl
  · omega
  · omega

/-! ## Digits of base 16 -/

theorem parse16_append (s t : List Char) :
    parse16 (s ++ t) = t.foldl (fun n c => 16 * n + hexValue c) (parse16 s) :=
  List.foldl_append ..

theorem parse16_from (n : Nat) (s : List Char) :
    s.foldl (fun n c => 16 * n + hexValue c) n = n * 16 ^ s.length + parse16 s := by
  unfold parse16
  induction s using List.reverseRecOn with
  | nil => simp
  | append_singleton s c ih =>
    rw [List.foldl_append, List.foldl_append, ih, List.length_append, pow_add]
    simp only [List.foldl_cons, List.foldl_nil, List.length_singleton, pow_one]
    ring

theorem parse16_concat (s t : List Char) :
    parse16 (s ++ t) = parse16 s * 16 ^ t.length + parse16 t := by
  rw [parse16_append, parse16_from]

theorem parse16_digits {ds : List Nat} (hds : ∀ d ∈ ds, d < 16) :
    parse16 (ds.map hexDigit) = Nat.ofDigits 16 ds.reverse := by
  induction ds with
  | nil => rfl
  | cons d ds ih =>
    have hd := hexValue_hexDigit (hds d List.mem_cons_self)
    have hrest := ih fun e he => hds e (List.mem_cons_of_mem _ he)
    have hone : parse16 [hexDigit d] = d := by simp [parse16, hd]
    have hcons := parse16_concat [hexDigit d] (ds.map hexDigit)
    rw [List.singleton_append, hone, hrest, List.length_map] at hcons
    rw [List.map_cons, hcons, Nat.ofDigits_reverse_cons]
    ring

/-- A number in a field of digits, where the field has room for it. -/
theorem padStart_eq {size n : Nat} (hsize : 0 < size) :
    padStart size (toString16 n) = (paddedDigits 16 size n).map hexDigit := by
  have hzero : hexDigit 0 = '0' := rfl
  unfold padStart toString16 paddedDigits
  by_cases hn : n = 0
  · subst hn
    obtain ⟨k, rfl⟩ : ∃ k, size = k + 1 := ⟨size - 1, by omega⟩
    simp [hzero, List.replicate_succ']
  · simp [hn, hzero]

theorem parse16_padStart {size n : Nat} (hsize : 0 < size) :
    parse16 (padStart size (toString16 n)) = n := by
  rw [padStart_eq hsize, parse16_digits (paddedDigits_lt (by decide)), ofDigits_paddedDigits]

theorem length_padStart {size n : Nat} (hsize : 0 < size) (hn : n < 16 ^ size) :
    (padStart size (toString16 n)).length = size := by
  rw [padStart_eq hsize, List.length_map]
  unfold paddedDigits
  have hle : (Nat.digits 16 n).length ≤ size := (Nat.digits_length_le_iff (by decide) n).mpr hn
  simp only [List.length_append, List.length_replicate, List.length_reverse]
  omega

theorem length_hexText (bytes : Bytes) :
    (bytes.flatMap fun byte => padStart 2 (toString16 byte.toNat)).length = bytes.length * 2 := by
  induction bytes with
  | nil => rfl
  | cons b bytes ih =>
    have hb := b.toNat_lt
    have htwo := length_padStart (n := b.toNat) (show 0 < 2 by decide) (by omega)
    rw [List.flatMap_cons, List.length_append, ih, htwo, List.length_cons]
    omega

theorem scalar_eq (bytes : Bytes) : scalar bytes = natural bytes := by
  unfold scalar
  induction bytes with
  | nil => rfl
  | cons b bytes ih =>
    rw [List.flatMap_cons, parse16_concat, ih, length_hexText, parse16_padStart (by decide),
      natural_cons, Nat.mul_comm _ 2, pow_mul]
    rfl

theorem natural_hexBytes {count : Nat} {hex : List Char} (hlen : hex.length = count * 2)
    (hhex : ∀ c ∈ hex, hexValue c < 16) :
    natural (hexBytes count hex) = parse16 hex ∧ (hexBytes count hex).length = count := by
  refine ⟨?_, by simp [hexBytes]⟩
  induction count generalizing hex with
  | zero =>
    obtain rfl := List.length_eq_zero_iff.mp hlen
    rfl
  | succ count ih =>
    match hex, hlen with
    | [_], hlen =>
      rw [List.length_singleton] at hlen
      omega
    | a :: b :: hex, hlen =>
      have hrest : hex.length = count * 2 := by
        simp only [List.length_cons] at hlen
        omega
      have ha := hhex a (by simp)
      have hb := hhex b (by simp)
      have hpair : parse16 [a, b] = hexValue a * 16 + hexValue b := by
        simp [parse16, Nat.mul_comm]
      have hcons : hexBytes (count + 1) (a :: b :: hex) =
          UInt8.ofNat (parse16 [a, b]) :: hexBytes count hex := by
        unfold hexBytes
        rw [List.range_succ_eq_map, List.map_cons, List.map_map]
        congr 1
        refine List.map_congr_left fun i _ => ?_
        simp [Nat.succ_mul]
      have hlenc : (hexBytes count hex).length = count := by simp [hexBytes]
      rw [hcons, natural_cons, ih hrest fun c hc => hhex c (by simp [hc]), hlenc, UInt8.toNat_ofNat',
        hpair, Nat.mod_eq_of_lt (by omega)]
      have happend := parse16_concat [a, b] hex
      rw [List.cons_append, List.singleton_append, hpair, hrest] at happend
      rw [happend, Nat.mul_comm count 2, pow_mul]
      rfl

/-! ## One normal form -/

theorem P256Signature.val_eq (signature : P256Signature) :
    signature.val = signature.r ++ signature.s := (List.take_append_drop ..).symm

/-- A signature is its two numbers. -/
theorem P256Signature.ext_natural {a b : P256Signature} (hr : natural a.r = natural b.r)
    (hs : natural a.s = natural b.s) : a = b := by
  apply Subtype.ext
  rw [a.val_eq, b.val_eq, natural_inj (a.length_r.trans b.length_r.symm) hr,
    natural_inj (a.length_s.trans b.length_s.symm) hs]

@[simp] theorem ofScalars_r {r s : Bytes} (h : r.length = 32 ∧ s.length = 32) :
    (ofScalars r s h).r = r := by
  simp [P256Signature.r, ofScalars, ← h.1]

@[simp] theorem ofScalars_s {r s : Bytes} (h : r.length = 32 ∧ s.length = 32) :
    (ofScalars r s h).s = s := by
  simp [P256Signature.s, ofScalars, ← h.1]

/-- The normal form of a signature: the same `r`, and the smaller of `s` and its negative. -/
def Normal (signature out : P256Signature) : Prop :=
  (InRange (natural signature.r) ∧ InRange (natural signature.s)) ∧
    natural out.r = natural signature.r ∧
    natural out.s = min (natural signature.s) (curveOrder - natural signature.s)

theorem Normal.unique {signature a b : P256Signature} (ha : Normal signature a)
    (hb : Normal signature b) : a = b :=
  P256Signature.ext_natural (ha.2.1.trans hb.2.1.symm) (ha.2.2.trans hb.2.2.symm)

theorem min_of_low {s : Nat} (h : s ≤ curveOrder / 2) : min s (curveOrder - s) = s := by
  generalize curveOrder = n at h ⊢
  omega

theorem min_of_high {s : Nat} (h : curveOrder / 2 < s) : min s (curveOrder - s) = curveOrder - s := by
  generalize curveOrder = n at h ⊢
  omega

theorem normal_of_normalize {signature out : P256Signature}
    (h : normalize_p1363_low_s signature = some out) : Normal signature out := by
  unfold normalize_p1363_low_s at h
  split at h
  · cases h
  rename_i hrange
  rw [not_not, p1363_signature_in_range_iff] at hrange
  refine ⟨hrange, ?_⟩
  split at h
  · rename_i hlow
    obtain rfl := Option.some.inj h
    rw [p1363_signature_is_low_s_iff, not_and, Nat.not_le] at hlow
    rw [ofScalars_r, ofScalars_s, min_of_high (hlow hrange),
      natural_difference signature.length_s hrange.2.2]
    exact ⟨rfl, rfl⟩
  · rename_i hlow
    obtain rfl := Option.some.inj h
    rw [not_not, p1363_signature_is_low_s_iff] at hlow
    exact ⟨rfl, (min_of_low hlow.2).symm⟩

theorem normalize_accepts {signature : P256Signature} (hr : InRange (natural signature.r))
    (hs : InRange (natural signature.s)) : ∃ out, normalize_p1363_low_s signature = some out := by
  have hrange := p1363_signature_in_range_iff.mpr ⟨hr, hs⟩
  unfold normalize_p1363_low_s
  rw [if_neg (not_not.mpr hrange)]
  split
  · exact ⟨_, rfl⟩
  · exact ⟨_, rfl⟩

theorem normalize_p1363_low_s_iff {signature out : P256Signature} :
    normalize_p1363_low_s signature = some out ↔ Normal signature out := by
  constructor
  · exact normal_of_normalize
  · intro h
    obtain ⟨out', hout⟩ := normalize_accepts h.1.1 h.1.2
    rw [hout, (normal_of_normalize hout).unique h]

theorem order_lt : curveOrder < 16 ^ 64 := by decide

theorem hexValue_padStart {size n : Nat} (hsize : 0 < size) :
    ∀ c ∈ padStart size (toString16 n), hexValue c < 16 := by
  intro c hc
  rw [padStart_eq hsize] at hc
  obtain ⟨d, hd, rfl⟩ := List.mem_map.mp hc
  have hlt := paddedDigits_lt (by decide) d hd
  rw [hexValue_hexDigit hlt]
  exact hlt

/-- The service normalises as the client does. -/
theorem normalizeDeviceSignature_iff {signature : P256Signature} {out : Bytes} :
    normalizeDeviceSignature signature.val = .ok out ↔
      ∃ normal : P256Signature, Normal signature normal ∧ out = normal.val := by
  have hnot : ∀ r s : Nat, (¬ (r = 0 ∨ curveOrder ≤ r ∨ s = 0 ∨ curveOrder ≤ s)) ↔
      InRange r ∧ InRange s := by
    intro r s
    unfold InRange
    omega
  unfold normalizeDeviceSignature
  rw [ensure_bind_eq_ok, ensure_bind_eq_ok, hnot, scalar_eq, scalar_eq]
  change _ ∧ (InRange (natural signature.r) ∧ InRange (natural signature.s)) ∧
    Except.ok (signature.r ++ hexBytes 32 (padStart 64 (toString16
      (if curveOrder / 2 < natural signature.s then curveOrder - natural signature.s
        else natural signature.s)))) = .ok out ↔ _
  have hmin : (if curveOrder / 2 < natural signature.s then curveOrder - natural signature.s
      else natural signature.s) = min (natural signature.s) (curveOrder - natural signature.s) := by
    split
    · rename_i h
      exact (min_of_high h).symm
    · rename_i h
      exact (min_of_low (Nat.not_lt.mp h)).symm
  rw [hmin]
  generalize hm : min (natural signature.s) (curveOrder - natural signature.s) = m
  have hbytes : InRange (natural signature.s) →
      natural (hexBytes 32 (padStart 64 (toString16 m))) = m ∧
        (hexBytes 32 (padStart 64 (toString16 m))).length = 32 := by
    intro hs
    have hlt : m < 16 ^ 64 := by
      rw [← hm]
      exact lt_of_le_of_lt (Nat.min_le_left _ _) (hs.2.trans order_lt)
    have hpos : 0 < 64 := by decide
    have h := @natural_hexBytes 32 _ (length_padStart hpos hlt) (hexValue_padStart hpos)
    rwa [parse16_padStart hpos] at h
  constructor
  · rintro ⟨-, hrange, hout⟩
    obtain ⟨hnat, hlen⟩ := hbytes hrange.2
    refine ⟨ofScalars signature.r _ ⟨signature.length_r, hlen⟩, ⟨hrange, ?_, ?_⟩,
      (Except.ok.inj hout).symm⟩
    · rw [ofScalars_r]
    · rw [ofScalars_s, hnat, hm]
  · rintro ⟨normal, ⟨hrange, hr, hs⟩, rfl⟩
    obtain ⟨hnat, hlen⟩ := hbytes hrange.2
    refine ⟨signature.property, hrange, congrArg Except.ok ?_⟩
    rw [normal.val_eq, natural_inj (normal.length_r.trans signature.length_r.symm) hr,
      natural_inj (hlen.trans normal.length_s.symm) (hnat.trans (hm.symm.trans hs.symm))]

theorem Normal.low {signature out : P256Signature} (h : Normal signature out) :
    p1363_signature_is_low_s out = true := by
  obtain ⟨⟨hr, hs⟩, hor, hos⟩ := h
  rw [p1363_signature_is_low_s_iff, hor, hos]
  unfold InRange at hr hs ⊢
  generalize curveOrder = n at hr hs ⊢
  omega

theorem Normal.fixed {signature out : P256Signature} (h : Normal signature out) : Normal out out := by
  have hlow := p1363_signature_is_low_s_iff.mp h.low
  exact ⟨hlow.1, rfl, (min_of_low hlow.2).symm⟩

/-! ## DER -/

theorem natural_skipFirst (scalar : Bytes) : natural (skipFirst scalar) = natural scalar := by
  induction scalar using skipFirst.induct with
  | case1 c scalar ih =>
    rw [skipFirst, if_pos rfl, ih, natural_cons 0]
    simp
  | case2 b c scalar hb => rw [skipFirst, if_neg hb]
  | case3 scalar h => rw [skipFirst.eq_2 scalar h]

theorem least_skipFirst {scalar : Bytes} (h : 0 < natural scalar) : Least (skipFirst scalar) := by
  induction scalar using skipFirst.induct with
  | case1 c scalar ih =>
    rw [skipFirst, if_pos rfl]
    refine ih ?_
    rwa [natural_cons, UInt8.toNat_zero, Nat.zero_mul, Nat.zero_add] at h
  | case2 b c scalar hb =>
    rw [skipFirst, if_neg hb]
    exact fun h0 => hb (Option.some.inj h0)
  | case3 scalar hshort =>
    rw [skipFirst.eq_2 scalar hshort]
    intro h0
    match scalar, h0 with
    | [b], h0 =>
      obtain rfl := Option.some.inj h0
      exact absurd h (by decide)
    | b :: c :: scalar, _ => exact hshort b c scalar rfl

theorem skipFirst_eq {scalar : Bytes} (h : 0 < natural scalar) :
    skipFirst scalar = leastBytes (natural scalar) := by
  rw [← natural_skipFirst, leastBytes_natural (least_skipFirst h)]

theorem append_der_integer_eq {scalar : Bytes} (hlen : scalar.length = 32)
    (h : 0 < natural scalar) : append_der_integer scalar = derInteger (natural scalar) := by
  have hle := length_leastBytes_le scalar
  have hcontents := length_derContents_le (natural scalar)
  unfold append_der_integer
  rw [skipFirst_eq h, derInteger_short (by omega)]
  cases hbytes : leastBytes (natural scalar) with
  | nil =>
    have := leastBytes_eq_nil.mp hbytes
    omega
  | cons b bs =>
    rw [derContents_eq_leastBytes hbytes]
    simp only [List.getD_cons_zero, high_bit]
    split
    · simp [Nat.add_comm]
    · simp

/-- What is read is the encoding of a positive number of at most 32 bytes. -/
theorem read_der_integer_iff {der magnitude rest : Bytes} :
    read_der_integer der = some (magnitude, rest) ↔
      ∃ n, 0 < n ∧ (leastBytes n).length ≤ 32 ∧ magnitude = leastBytes n ∧
        der = derInteger n ++ rest := by
  constructor
  · intro h
    unfold read_der_integer at h
    split at h
    · rename_i tag encoded_size body
      split at h
      · cases h
      rename_i htag
      split at h
      · cases h
      rename_i hsize
      obtain ⟨m, hm, h⟩ := Option.bind_eq_some_iff.mp h
      split at h
      · cases h
      rename_i hlen
      obtain ⟨rfl, rfl⟩ := Prod.mk.inj (Option.some.inj h)
      obtain ⟨n, hn, hvalue, rfl⟩ := magnitudeOf_iff.mp hm
      have hle : encoded_size.toNat ≤ body.length := by omega
      have hcontents : (derContents n).length = encoded_size.toNat := by
        rw [← hvalue, List.length_take, Nat.min_eq_left hle]
      have hshort : encoded_size.toNat < 128 := by
        have := hsize
        simp only [not_or, UInt8.le_iff_toNat_le, UInt8.reduceToNat] at this
        omega
      refine ⟨n, hn, by omega, rfl, ?_⟩
      rw [derInteger_short (by omega), hcontents, UInt8.ofNat_toNat, ← hvalue, not_not.mp htag]
      simp
    · cases h
  · rintro ⟨n, hn, hlen, rfl, rfl⟩
    have hcontents := length_derContents_le n
    have hpos := List.length_pos_iff.mpr (derContents_ne_nil n)
    have hmagnitude : (leastBytes n).length ≠ 0 := by
      intro h
      have := leastBytes_eq_nil.mp (List.length_eq_zero_iff.mp h)
      omega
    have hsize : (UInt8.ofNat (derContents n).length).toNat = (derContents n).length := by
      rw [UInt8.toNat_ofNat', Nat.mod_eq_of_lt (by omega)]
    have hnot : ¬ (UInt8.ofNat (derContents n).length = 0 ∨
        0x80 ≤ UInt8.ofNat (derContents n).length ∨ (derContents n ++ rest).length <
          (UInt8.ofNat (derContents n).length).toNat) := by
      rw [← UInt8.toNat_inj, UInt8.le_iff_toNat_le, hsize, List.length_append]
      simp only [UInt8.toNat_zero, UInt8.reduceToNat]
      omega
    have hread : magnitudeOf (derContents n) = some (leastBytes n) :=
      magnitudeOf_iff.mpr ⟨n, hn, rfl, rfl⟩
    rw [derInteger_short (by omega), List.cons_append, List.cons_append]
    unfold read_der_integer
    dsimp only
    rw [if_neg (by simp), if_neg hnot, hsize, List.take_left' rfl, List.drop_left' rfl, hread]
    simp only [Option.bind_eq_bind, Option.bind_some]
    rw [if_neg (by omega)]
    rfl

theorem copyMagnitude_eq {n : Nat} (h : (leastBytes n).length ≤ 32) :
    natural (copyMagnitude (leastBytes n)) = n := by
  have hdrop : copyMagnitude (leastBytes n) =
      List.replicate (32 - (leastBytes n).length) 0 ++ leastBytes n := by
    unfold copyMagnitude
    rw [List.drop_append_of_le_length (by rwa [List.length_replicate]), List.drop_replicate]
  rw [hdrop, natural_zeros, natural_leastBytes]

/-- The DER of a signature. -/
def signatureDer (signature : P256Signature) : Bytes :=
  derSequence (derInteger (natural signature.r) ++ derInteger (natural signature.s))

theorem length_derInteger {n : Nat} (h : (leastBytes n).length ≤ 32) :
    3 ≤ (derInteger n).length ∧ (derInteger n).length ≤ 35 := by
  have hcontents := length_derContents_le n
  have hpos := List.length_pos_iff.mpr (derContents_ne_nil n)
  rw [derInteger_short (by omega)]
  simp only [List.length_cons]
  omega

theorem signatureDer_eq (signature : P256Signature) : signatureDer signature =
    0x30 :: UInt8.ofNat (derInteger (natural signature.r) ++ derInteger (natural signature.s)).length ::
      (derInteger (natural signature.r) ++ derInteger (natural signature.s)) ∧
    6 ≤ (derInteger (natural signature.r) ++ derInteger (natural signature.s)).length ∧
    (derInteger (natural signature.r) ++ derInteger (natural signature.s)).length ≤ 70 := by
  have hr := length_leastBytes_le signature.r
  have hs := length_leastBytes_le signature.s
  rw [signature.length_r] at hr
  rw [signature.length_s] at hs
  have hlr := length_derInteger hr
  have hls := length_derInteger hs
  rw [List.length_append]
  refine ⟨?_, by omega, by omega⟩
  unfold signatureDer derSequence
  rw [derLength_short (by rw [List.length_append]; omega), List.length_append]
  rfl

theorem p1363_signature_to_der_iff {signature : P256Signature} {der : Bytes} :
    p1363_signature_to_der signature = some der ↔
      p1363_signature_in_range signature = true ∧ der = signatureDer signature := by
  unfold p1363_signature_to_der
  by_cases h : p1363_signature_in_range signature = true
  · obtain ⟨hr, hs⟩ := p1363_signature_in_range_iff.mp h
    rw [if_neg (not_not.mpr h), append_der_integer_eq signature.length_r hr.1,
      append_der_integer_eq signature.length_s hs.1]
    dsimp only
    rw [← (signatureDer_eq signature).1]
    simp [h, eq_comm]
  · simp [h]

theorem der_signature_to_p1363_iff {signature : P256Signature} {der : Bytes} :
    der_signature_to_p1363 der = some signature ↔
      p1363_signature_in_range signature = true ∧ der = signatureDer signature := by
  constructor
  · intro h
    unfold der_signature_to_p1363 at h
    split at h
    · rename_i tag body_size body
      split at h
      · cases h
      rename_i hsize
      obtain ⟨⟨r, afterR⟩, hr, h⟩ := Option.bind_eq_some_iff.mp h
      obtain ⟨⟨s, afterS⟩, hs, h⟩ := Option.bind_eq_some_iff.mp h
      dsimp only at h hs
      split at h
      · cases h
      rename_i hend
      rw [not_not] at hend
      subst hend
      split at h
      · cases h
      rename_i hrange
      obtain rfl := Option.some.inj h
      obtain ⟨nr, -, hlr, rfl, rfl⟩ := read_der_integer_iff.mp hr
      obtain ⟨ns, -, hls, rfl, rfl⟩ := read_der_integer_iff.mp hs
      refine ⟨not_not.mp hrange, ?_⟩
      simp only [not_or, not_not] at hsize
      obtain ⟨-, -, rfl, -, hlen⟩ := hsize
      rw [(signatureDer_eq _).1, ofScalars_r, ofScalars_s, copyMagnitude_eq hlr,
        copyMagnitude_eq hls]
      have hbody : body_size =
          UInt8.ofNat (derInteger nr ++ (derInteger ns ++ [])).length := by
        simp only [List.length_cons] at hlen
        rw [← Nat.add_right_cancel hlen, UInt8.ofNat_toNat]
      rw [hbody, List.append_nil]
    · cases h
  · rintro ⟨hrange, rfl⟩
    obtain ⟨hr, hs⟩ := p1363_signature_in_range_iff.mp hrange
    obtain ⟨hder, hmin, hmax⟩ := signatureDer_eq signature
    have hlr := length_leastBytes_le signature.r
    have hls := length_leastBytes_le signature.s
    rw [signature.length_r] at hlr
    rw [signature.length_s] at hls
    have hreadr := read_der_integer_iff.mpr ⟨_, hr.1, hlr, rfl,
      Eq.refl (derInteger (natural signature.r) ++ derInteger (natural signature.s))⟩
    have hreads := read_der_integer_iff.mpr ⟨_, hs.1, hls, rfl,
      (List.append_nil (derInteger (natural signature.s))).symm⟩
    have hcandidate : ofScalars (copyMagnitude (leastBytes (natural signature.r)))
        (copyMagnitude (leastBytes (natural signature.s)))
        ⟨length_copyMagnitude _, length_copyMagnitude _⟩ = signature := by
      apply P256Signature.ext_natural
      · rw [ofScalars_r, copyMagnitude_eq hlr]
      · rw [ofScalars_s, copyMagnitude_eq hls]
    generalize hbody : derInteger (natural signature.r) ++ derInteger (natural signature.s) = body
      at hder hmin hmax hreadr
    rw [hder]
    unfold der_signature_to_p1363
    have hsize : (UInt8.ofNat body.length).toNat = body.length := by
      rw [UInt8.toNat_ofNat', Nat.mod_eq_of_lt (by omega)]
    dsimp only
    rw [if_neg, hreadr]
    · simp only [Option.bind_eq_bind, Option.bind_some]
      rw [hreads]
      simp only [Option.bind_some]
      rw [if_neg (not_not.mpr rfl), hcandidate, if_neg (not_not.mpr hrange)]
    · rw [UInt8.le_iff_toNat_le, hsize]
      simp only [List.length_cons, UInt8.reduceToNat, ne_eq, not_true_eq_false, false_or, or_false]
      omega

/-- A signature of the curve has one DER, and the DER of a signature is read as
that signature and as no other. The client and the service take the same
signatures, and make the same normal form of each. -/
theorem signatures_have_one_spelling :
    (∀ signature : P256Signature, InRange (natural signature.r) → InRange (natural signature.s) →
      ∃ der, p1363_signature_to_der signature = some der ∧
        der_signature_to_p1363 der = some signature) ∧
    (∀ (der : Bytes) (signature : P256Signature), der_signature_to_p1363 der = some signature →
      p1363_signature_to_der signature = some der) ∧
    (∀ (signature : P256Signature) (out : Bytes),
      (∃ normal, normalize_p1363_low_s signature = some normal ∧ normal.val = out) ↔
        normalizeDeviceSignature signature.val = .ok out) ∧
    (∀ signature : P256Signature, (∃ normal, normalize_p1363_low_s signature = some normal) ↔
      InRange (natural signature.r) ∧ InRange (natural signature.s)) ∧
    ∀ signature normal : P256Signature, normalize_p1363_low_s signature = some normal →
      normal.r = signature.r ∧
      natural normal.s = min (natural signature.s) (curveOrder - natural signature.s) ∧
      p1363_signature_is_low_s normal = true ∧
      normalize_p1363_low_s normal = some normal ∧
      normalizeDeviceSignature normal.val = .ok normal.val := by
  refine ⟨?_, ?_, ?_, ?_, ?_⟩
  · intro signature hr hs
    have hrange := p1363_signature_in_range_iff.mpr ⟨hr, hs⟩
    exact ⟨_, p1363_signature_to_der_iff.mpr ⟨hrange, rfl⟩,
      der_signature_to_p1363_iff.mpr ⟨hrange, rfl⟩⟩
  · intro der signature h
    exact p1363_signature_to_der_iff.mpr (der_signature_to_p1363_iff.mp h)
  · intro signature out
    rw [normalizeDeviceSignature_iff]
    simp only [normalize_p1363_low_s_iff]
    exact ⟨fun ⟨normal, h, hout⟩ => ⟨normal, h, hout.symm⟩,
      fun ⟨normal, h, hout⟩ => ⟨normal, h, hout.symm⟩⟩
  · intro signature
    constructor
    · rintro ⟨normal, h⟩
      exact (normalize_p1363_low_s_iff.mp h).1
    · rintro ⟨hr, hs⟩
      exact normalize_accepts hr hs
  · intro signature normal h
    have hnormal := normalize_p1363_low_s_iff.mp h
    exact ⟨natural_inj (normal.length_r.trans signature.length_r.symm) hnormal.2.1, hnormal.2.2,
      hnormal.low, normalize_p1363_low_s_iff.mpr hnormal.fixed,
      normalizeDeviceSignature_iff.mpr ⟨normal, hnormal.fixed, rfl⟩⟩

/-- `r` is one, and `s` the largest scalar. -/
def highSignature : P256Signature :=
  ⟨List.replicate 31 0 ++ 1 :: kP256Order.take 31 ++ [0x50], by decide⟩

/-- Its DER has a zero before `s`, and its normal form has one for `s`. -/
theorem the_largest_scalar_is_one :
    (∃ der, p1363_signature_to_der highSignature = some der ∧
      der_signature_to_p1363 der = some highSignature) ∧
    (∃ normal, normalize_p1363_low_s highSignature = some normal ∧ natural normal.s = 1) ∧
    p1363_signature_to_der highSignature = some ([0x30, 0x26, 0x02, 0x01, 0x01, 0x02, 0x21, 0x00] ++
      kP256Order.take 31 ++ [0x50]) := by
  have hr : natural highSignature.r = 1 := by decide
  have hs : natural highSignature.s = curveOrder - 1 := by decide
  have hinr : InRange (natural highSignature.r) := by
    rw [hr]
    exact ⟨le_refl 1, by decide⟩
  have hins : InRange (natural highSignature.s) := by
    rw [hs]
    exact ⟨by decide, by decide⟩
  obtain ⟨hder, -, -, haccepts, hnormal⟩ := signatures_have_one_spelling
  obtain ⟨normal, h⟩ := (haccepts highSignature).mpr ⟨hinr, hins⟩
  refine ⟨hder _ hinr hins, ⟨normal, h, ?_⟩, by decide⟩
  rw [(hnormal _ _ h).2.1, hs]
  decide

end Licensecc.Identity
