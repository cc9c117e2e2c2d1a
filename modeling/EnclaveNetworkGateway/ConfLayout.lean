import EnclaveNetworkGateway.RatsTlsConf

/-!
# Reading the configuration back

The binding asserts where in memory each field of `rats_tls_conf_t` lies. Reading at these
places is inverse to the layout: they overlap nowhere, and what none of them covers is padding.
-/
namespace EnclaveNetworkGateway

/-! ## Fields in memory -/

/-- The `n` bytes from `off` on, fewer at the end of the memory. -/
def slice (mem : List UInt8) (off n : ℕ) : List UInt8 := (mem.drop off).take n

/-- The blocks lie one behind the other from `off` to the end of the memory. -/
def Tiles (mem : List UInt8) : ℕ → List (List UInt8) → Prop
  | off, [] => mem.length = off
  | off, b :: bs => slice mem off b.length = b ∧ Tiles mem (off + b.length) bs

section Tiles

variable {mem : List UInt8}

theorem slice_length {off n : ℕ} (h : off + n ≤ mem.length) : (slice mem off n).length = n := by
  rw [slice, List.length_take, List.length_drop]
  omega

/-- Two blocks are found as one. -/
theorem slice_append_iff {off : ℕ} {b c : List UInt8} :
    slice mem off (b ++ c).length = b ++ c ↔
      slice mem off b.length = b ∧ slice mem (off + b.length) c.length = c := by
  simp only [slice, List.length_append, ← List.drop_drop, List.take_add]
  constructor
  · intro h
    have hlen := congrArg List.length h
    simp only [List.length_append, List.length_take, List.length_drop] at hlen
    apply List.append_inj h
    rw [List.length_take, List.length_drop]
    omega
  · rintro ⟨hb, hc⟩
    rw [hb, hc]

theorem drop_eq_append_iff {off : ℕ} {b rest : List UInt8} :
    mem.drop off = b ++ rest ↔
      slice mem off b.length = b ∧ mem.drop (off + b.length) = rest := by
  rw [slice, ← List.drop_drop]
  constructor
  · intro h
    simp [h]
  · rintro ⟨htake, hdrop⟩
    calc mem.drop off
        = (mem.drop off).take b.length ++ (mem.drop off).drop b.length :=
          (List.take_append_drop _ _).symm
      _ = b ++ rest := by rw [htake, hdrop]

/-- Memory is a concatenation of blocks exactly if each is found behind the one before it. -/
theorem tiles_iff {off : ℕ} {bs : List (List UInt8)} (h : off ≤ mem.length) :
    Tiles mem off bs ↔ mem.drop off = bs.flatten := by
  induction bs generalizing off with
  | nil =>
    rw [Tiles, List.flatten_nil, List.drop_eq_nil_iff]
    omega
  | cons b bs ih =>
    rw [Tiles, List.flatten_cons, drop_eq_append_iff]
    apply and_congr_right
    intro hb
    have hle : off + b.length ≤ mem.length := by
      have hlen := congrArg List.length hb
      rw [slice, List.length_take, List.length_drop] at hlen
      omega
    exact ih hle

end Tiles

namespace RatsTls

/-! ## Values in memory -/

def loadBool (mem : Bytes) (off : ℕ) : Option Bool :=
  match slice mem off 1 with
  | [0] => some false
  | [1] => some true
  | _ => none

def loadU8 (mem : Bytes) (off : ℕ) : Option UInt8 :=
  match slice mem off 1 with
  | [b] => some b
  | _ => none

def loadU32 (mem : Bytes) (off : ℕ) : Option UInt32 :=
  match slice mem off 4 with
  | [a, b, c, d] =>
    some (.ofNat (a.toNat + 2 ^ 8 * b.toNat + 2 ^ 16 * c.toNat + 2 ^ 24 * d.toNat))
  | _ => none

def loadU64 (mem : Bytes) (off : ℕ) : Option UInt64 := do
  let low ← loadU32 mem off
  let high ← loadU32 mem (off + 4)
  some (.ofNat (low.toNat + 2 ^ 32 * high.toNat))

def loadArray (mem : Bytes) (off n : ℕ) : Option (CharArray n) :=
  if h : (slice mem off n).length = n then some ⟨slice mem off n, h⟩ else none

section Values

variable {mem : Bytes} {off : ℕ}

theorem loadBool_eq_some {b : Bool} :
    loadBool mem off = some b ↔ slice mem off 1 = [b.toUInt8] := by
  have hbyte : b.toUInt8 = if b then 1 else 0 := by cases b <;> rfl
  rw [loadBool, hbyte]
  split
  · next h => cases b <;> simp [h]
  · next h => cases b <;> simp [h]
  · next h0 h1 =>
    cases b
    · simpa using h0
    · simpa using h1

theorem loadU8_eq_some {b : UInt8} : loadU8 mem off = some b ↔ slice mem off 1 = [b] := by
  rw [loadU8]
  split
  · next h => simp [h]
  · next h =>
    have hne : slice mem off 1 ≠ [b] := h b
    simp [hne]

theorem le32_eq_iff {x : UInt32} {a b c d : UInt8} :
    le32 x = [a, b, c, d] ↔
      x.toNat = a.toNat + 2 ^ 8 * b.toNat + 2 ^ 16 * c.toNat + 2 ^ 24 * d.toNat := by
  have ha := a.toNat_lt
  have hb := b.toNat_lt
  have hc := c.toNat_lt
  have hd := d.toNat_lt
  have hx := x.toNat_lt
  simp only [le32, List.cons.injEq, and_true, ← UInt8.toNat_inj, UInt32.toNat_toUInt8,
    UInt32.toNat_shiftRight, UInt32.reduceToNat, Nat.reduceMod, Nat.shiftRight_eq_div_pow]
  omega

theorem le32_inj {x y : UInt32} : le32 x = le32 y ↔ x = y := by
  have hy := le32_eq_iff.mp (rfl : le32 y = _)
  rw [← UInt32.toNat_inj, hy]
  exact le32_eq_iff

theorem loadU32_eq_some {x : UInt32} : loadU32 mem off = some x ↔ slice mem off 4 = le32 x := by
  rw [loadU32]
  split
  · next a b c d h =>
    have ha := a.toNat_lt
    have hb := b.toNat_lt
    have hc := c.toNat_lt
    have hd := d.toNat_lt
    rw [h, eq_comm (a := [a, b, c, d]), le32_eq_iff, Option.some.injEq, ← UInt32.toNat_inj,
      UInt32.toNat_ofNat_of_lt' (by rw [UInt32.size]; omega)]
    exact eq_comm
  · next h =>
    have hne : slice mem off 4 ≠ le32 x := h _ _ _ _
    simp [hne]

theorem le64_eq_iff {x : UInt64} {low high : UInt32} :
    le64 x = le32 low ++ le32 high ↔ x.toNat = low.toNat + 2 ^ 32 * high.toNat := by
  have hlow := low.toNat_lt
  have hhigh := high.toNat_lt
  have hx := x.toNat_lt
  have happ : le64 x = le32 low ++ le32 high ↔ x.toUInt32 = low ∧ (x >>> 32).toUInt32 = high := by
    rw [← le32_inj, ← le32_inj]
    constructor
    · intro h
      exact List.append_inj h rfl
    · rintro ⟨hlow, hhigh⟩
      rw [le64, hlow, hhigh]
  rw [happ, ← UInt32.toNat_inj, ← UInt32.toNat_inj, UInt64.toNat_toUInt32, UInt64.toNat_toUInt32,
    UInt64.toNat_shiftRight, Nat.shiftRight_eq_div_pow]
  simp only [UInt64.reduceToNat, Nat.reduceMod]
  omega

theorem loadU64_eq_some {x : UInt64} : loadU64 mem off = some x ↔ slice mem off 8 = le64 x := by
  have hsplit : ∀ low high : UInt32, slice mem off 8 = le32 low ++ le32 high ↔
      slice mem off 4 = le32 low ∧ slice mem (off + 4) 4 = le32 high :=
    fun low high => slice_append_iff (b := le32 low) (c := le32 high)
  simp only [loadU64, Option.bind_eq_bind, Option.bind_eq_some_iff, loadU32_eq_some,
    Option.some.injEq]
  constructor
  · rintro ⟨low, hlow, high, hhigh, rfl⟩
    have hlt := low.toNat_lt
    have hlt' := high.toNat_lt
    rw [(hsplit low high).mpr ⟨hlow, hhigh⟩, eq_comm, le64_eq_iff,
      UInt64.toNat_ofNat_of_lt' (by rw [UInt64.size]; omega)]
  · intro h
    obtain ⟨hlow, hhigh⟩ := (hsplit _ _).mp h
    refine ⟨_, hlow, _, hhigh, ?_⟩
    rw [← le64_eq_iff.mp (rfl : le64 x = _), UInt64.ofNat_toNat]

theorem loadArray_eq_some {n : ℕ} {a : CharArray n} :
    loadArray mem off n = some a ↔ slice mem off n = a.bytes := by
  rw [loadArray]
  split_ifs with h
  · cases a
    simp
  · have hne : slice mem off n ≠ a.bytes := fun heq => h (heq ▸ a.length_eq)
    simp [hne]

end Values

/-! ## The structures in memory -/

def QuoteSgxEpid.load (mem : Bytes) (off : ℕ) : Option QuoteSgxEpid := do
  let valid ← loadBool mem off
  let spid ← loadArray mem (off + 1) 16
  let linkable ← loadBool mem (off + 17)
  some ⟨valid, spid, linkable⟩

def QuoteSgxEcdsa.load (mem : Bytes) (off : ℕ) : Option QuoteSgxEcdsa := do
  let valid ← loadBool mem off
  let certType ← loadU8 mem (off + 1)
  let verificationType ← loadU32 mem (off + 4)
  some ⟨valid, certType, verificationType⟩

/-- The size of `rats_tls_conf_t`. -/
def confSize : ℕ := 192

/-- The fields at the offsets that the binding asserts. -/
def RatsTlsConf.load (mem : Bytes) : Option RatsTlsConf := do
  guard (mem.length = confSize)
  let apiVersion ← loadU32 mem 0
  let flags ← loadU64 mem 8
  let logLevel ← loadU32 mem 16
  let tlsType ← loadArray mem TypeField.tls.offset 32
  let attesterType ← loadArray mem TypeField.attester.offset 32
  let verifierType ← loadArray mem TypeField.verifier.offset 32
  let cryptoType ← loadArray mem TypeField.crypto.offset 32
  let certAlgo ← loadU32 mem 148
  let enclaveId ← loadU64 mem 152
  let quoteSgxEpid ← QuoteSgxEpid.load mem 160
  let quoteSgxEcdsa ← QuoteSgxEcdsa.load mem 180
  some {
    apiVersion, flags, logLevel, tlsType, attesterType, verifierType, cryptoType, certAlgo,
    enclaveId, quoteSgxEpid, quoteSgxEcdsa }

section Load

variable {mem : Bytes} {c : RatsTlsConf} {pad : Padding}

/-- The image, block by block. -/
def RatsTlsConf.blocks (c : RatsTlsConf) (pad : Padding) : List Bytes :=
  [le32 c.apiVersion, pad.apiVersion.bytes, le64 c.flags, le32 c.logLevel, c.tlsType.bytes,
    c.attesterType.bytes, c.verifierType.bytes, c.cryptoType.bytes, le32 c.certAlgo,
    le64 c.enclaveId, [c.quoteSgxEpid.valid.toUInt8], c.quoteSgxEpid.spid.bytes,
    [c.quoteSgxEpid.linkable.toUInt8], pad.quoteSgxEpid.bytes, [c.quoteSgxEcdsa.valid.toUInt8],
    [c.quoteSgxEcdsa.certType], pad.certType.bytes, le32 c.quoteSgxEcdsa.verificationType,
    pad.tail.bytes]

theorem blocks_flatten : (c.blocks pad).flatten = c.image pad := by
  simp [RatsTlsConf.blocks, RatsTlsConf.image, RatsTlsConf.behindNames]

theorem QuoteSgxEpid.load_eq_some {off : ℕ} {q : QuoteSgxEpid} :
    load mem off = some q ↔ slice mem off 1 = [q.valid.toUInt8] ∧
      slice mem (off + 1) 16 = q.spid.bytes ∧ slice mem (off + 17) 1 = [q.linkable.toUInt8] := by
  rw [← loadBool_eq_some, ← loadBool_eq_some, ← loadArray_eq_some]
  simp only [load, Option.bind_eq_bind, Option.bind_eq_some_iff, Option.some.injEq]
  constructor
  · rintro ⟨_, hvalid, _, hspid, _, hlinkable, rfl⟩
    exact ⟨hvalid, hspid, hlinkable⟩
  · rintro ⟨hvalid, hspid, hlinkable⟩
    exact ⟨_, hvalid, _, hspid, _, hlinkable, rfl⟩

theorem QuoteSgxEcdsa.load_eq_some {off : ℕ} {q : QuoteSgxEcdsa} :
    load mem off = some q ↔ slice mem off 1 = [q.valid.toUInt8] ∧
      slice mem (off + 1) 1 = [q.certType] ∧ slice mem (off + 4) 4 = le32 q.verificationType := by
  rw [← loadBool_eq_some, ← loadU8_eq_some, ← loadU32_eq_some]
  simp only [load, Option.bind_eq_bind, Option.bind_eq_some_iff, Option.some.injEq]
  constructor
  · rintro ⟨_, hvalid, _, hcert, _, hver, rfl⟩
    exact ⟨hvalid, hcert, hver⟩
  · rintro ⟨hvalid, hcert, hver⟩
    exact ⟨_, hvalid, _, hcert, _, hver, rfl⟩

/-- The structure lies in the memory, with whatever there is between the fields. -/
structure Stored (mem : Bytes) (c : RatsTlsConf) : Prop where
  length : mem.length = confSize
  apiVersion : slice mem 0 4 = le32 c.apiVersion
  flags : slice mem 8 8 = le64 c.flags
  logLevel : slice mem 16 4 = le32 c.logLevel
  types : ∀ f : TypeField, slice mem f.offset 32 = (f.get c).bytes
  certAlgo : slice mem 148 4 = le32 c.certAlgo
  enclaveId : slice mem 152 8 = le64 c.enclaveId
  epid : QuoteSgxEpid.load mem 160 = some c.quoteSgxEpid
  ecdsa : QuoteSgxEcdsa.load mem 180 = some c.quoteSgxEcdsa

theorem load_iff_stored : RatsTlsConf.load mem = some c ↔ Stored mem c := by
  constructor
  · intro h
    simp only [RatsTlsConf.load, Option.bind_eq_bind, Option.bind_eq_some_iff,
      Option.some.injEq] at h
    obtain ⟨_, hlen, _, hapi, _, hflags, _, hlog, _, htls, _, hattester, _, hverifier, _, hcrypto,
      _, halgo, _, henclave, _, hepid, _, hecdsa, rfl⟩ := h
    have hlen' : mem.length = confSize := by
      by_contra hne
      simp [guard, hne] at hlen
    refine ⟨hlen', loadU32_eq_some.mp hapi, loadU64_eq_some.mp hflags, loadU32_eq_some.mp hlog,
      fun f => ?_, loadU32_eq_some.mp halgo, loadU64_eq_some.mp henclave, hepid, hecdsa⟩
    cases f with
    | tls => exact loadArray_eq_some.mp htls
    | attester => exact loadArray_eq_some.mp hattester
    | verifier => exact loadArray_eq_some.mp hverifier
    | crypto => exact loadArray_eq_some.mp hcrypto
  · intro h
    have harray (f : TypeField) : loadArray mem f.offset 32 = some (f.get c) :=
      loadArray_eq_some.mpr (h.types f)
    simp only [RatsTlsConf.load, guard, h.length, if_true, loadU32_eq_some.mpr h.apiVersion,
      loadU64_eq_some.mpr h.flags, loadU32_eq_some.mpr h.logLevel, harray,
      loadU32_eq_some.mpr h.certAlgo, loadU64_eq_some.mpr h.enclaveId, h.epid, h.ecdsa,
      Option.bind_eq_bind, Option.bind_some, Option.pure_def]
    rfl

theorem le32_length (x : UInt32) : (le32 x).length = 4 := rfl

theorem le64_length (x : UInt64) : (le64 x).length = 8 := rfl

/-- What an image consists of. -/
theorem image_eq_iff : c.image pad = mem ↔ Stored mem c ∧ slice mem 4 4 = pad.apiVersion.bytes ∧
    slice mem 178 2 = pad.quoteSgxEpid.bytes ∧ slice mem 182 2 = pad.certType.bytes ∧
      slice mem 188 4 = pad.tail.bytes := by
  rw [← blocks_flatten, eq_comm, ← List.drop_zero (l := mem), ← tiles_iff (Nat.zero_le _)]
  simp only [RatsTlsConf.blocks, Tiles, le32_length, le64_length, CharArray.length_eq,
    List.length_singleton, List.drop_zero]
  constructor
  · rintro ⟨hapi, hpad, hflags, hlog, htls, hattester, hverifier, hcrypto, halgo, henclave, hvalid,
      hspid, hlinkable, hpadEpid, hecdsa, hcert, hpadCert, hver, htail, hlen⟩
    refine ⟨⟨hlen, hapi, hflags, hlog, fun f => ?_, halgo, henclave,
      QuoteSgxEpid.load_eq_some.mpr ⟨hvalid, hspid, hlinkable⟩,
      QuoteSgxEcdsa.load_eq_some.mpr ⟨hecdsa, hcert, hver⟩⟩, hpad, hpadEpid, hpadCert, htail⟩
    cases f with
    | tls => exact htls
    | attester => exact hattester
    | verifier => exact hverifier
    | crypto => exact hcrypto
  · rintro ⟨h, hpad, hpadEpid, hpadCert, htail⟩
    obtain ⟨hvalid, hspid, hlinkable⟩ := QuoteSgxEpid.load_eq_some.mp h.epid
    obtain ⟨hecdsa, hcert, hver⟩ := QuoteSgxEcdsa.load_eq_some.mp h.ecdsa
    exact ⟨h.apiVersion, hpad, h.flags, h.logLevel, h.types .tls, h.types .attester,
      h.types .verifier, h.types .crypto, h.certAlgo, h.enclaveId, hvalid, hspid, hlinkable,
      hpadEpid, hecdsa, hcert, hpadCert, hver, htail, h.length⟩

/-- Reading the structure back undoes its layout, and nothing else is read as a structure. -/
theorem load_iff_image (mem : Bytes) (c : RatsTlsConf) :
    RatsTlsConf.load mem = some c ↔ ∃ pad, c.image pad = mem := by
  rw [load_iff_stored]
  constructor
  · intro h
    have hfit (off n : ℕ) (hle : off + n ≤ confSize) : (slice mem off n).length = n :=
      slice_length (h.length ▸ hle)
    exact ⟨⟨⟨_, hfit 4 4 (by decide)⟩, ⟨_, hfit 178 2 (by decide)⟩, ⟨_, hfit 182 2 (by decide)⟩,
      ⟨_, hfit 188 4 (by decide)⟩⟩, image_eq_iff.mpr ⟨h, rfl, rfl, rfl, rfl⟩⟩
  · rintro ⟨pad, hpad⟩
    exact (image_eq_iff.mp hpad).1

end Load

end RatsTls

end EnclaveNetworkGateway
