import EnclaveNetworkGateway.CString
import EnclaveNetworkGateway.FrameCodec

/-!
# The configuration that `RatsTls::new` hands to the library

`rats_tls_conf_t` is `repr(C)`, and the library reads its four type names as
NUL-terminated strings. The names are copied into zeroed arrays of 32 bytes.
-/
namespace EnclaveNetworkGateway

namespace RatsTls

/-- `rats_tls_conf_t__bindgen_ty_1`. -/
structure QuoteSgxEpid where
  valid : Bool
  spid : CharArray 16
  linkable : Bool
  deriving DecidableEq

/-- `rats_tls_conf_t__bindgen_ty_2`. -/
structure QuoteSgxEcdsa where
  valid : Bool
  certType : UInt8
  verificationType : UInt32
  deriving DecidableEq

structure RatsTlsConf where
  apiVersion : UInt32
  flags : UInt64
  logLevel : UInt32
  tlsType : CharArray 32
  attesterType : CharArray 32
  verifierType : CharArray 32
  cryptoType : CharArray 32
  certAlgo : UInt32
  enclaveId : UInt64
  quoteSgxEpid : QuoteSgxEpid
  quoteSgxEcdsa : QuoteSgxEcdsa
  deriving DecidableEq

def apiVersionDefault : UInt32 := 1
def confFlagsMutual : UInt64 := 1
def confFlagsServer : UInt64 := 2
def logLevelDebug : UInt32 := 0
def logLevelDefault : UInt32 := 3
def certAlgoDefault : UInt32 := 1
def errNone : UInt32 := 0

/-- `Default for rats_tls_conf_t`: all zero but the log level. -/
def RatsTlsConf.default : RatsTlsConf where
  apiVersion := 0
  flags := 0
  logLevel := logLevelDefault
  tlsType := .zeroed 32
  attesterType := .zeroed 32
  verifierType := .zeroed 32
  cryptoType := .zeroed 32
  certAlgo := 0
  enclaveId := 0
  quoteSgxEpid := ⟨false, .zeroed 16, false⟩
  quoteSgxEcdsa := ⟨false, 0, 0⟩

/-! ## Layout -/

/-- The bytes between fields and behind the last one, which nobody sets. -/
structure Padding where
  apiVersion : CharArray 4
  quoteSgxEpid : CharArray 2
  certType : CharArray 2
  tail : CharArray 4
  deriving DecidableEq

def le32 (x : UInt32) : Bytes :=
  [x.toUInt8, (x >>> 8).toUInt8, (x >>> 16).toUInt8, (x >>> 24).toUInt8]

def le64 (x : UInt64) : Bytes := le32 x.toUInt32 ++ le32 (x >>> 32).toUInt32

/-- What lies behind the type names. -/
def RatsTlsConf.behindNames (c : RatsTlsConf) (pad : Padding) : Bytes :=
  le32 c.certAlgo ++ le64 c.enclaveId ++
    [c.quoteSgxEpid.valid.toUInt8] ++ c.quoteSgxEpid.spid.bytes ++ [c.quoteSgxEpid.linkable.toUInt8] ++
    pad.quoteSgxEpid.bytes ++
    [c.quoteSgxEcdsa.valid.toUInt8, c.quoteSgxEcdsa.certType] ++ pad.certType.bytes ++
    le32 c.quoteSgxEcdsa.verificationType ++ pad.tail.bytes

/-- The memory of the structure on a 64-bit little-endian machine. -/
def RatsTlsConf.image (c : RatsTlsConf) (pad : Padding) : Bytes :=
  le32 c.apiVersion ++ pad.apiVersion.bytes ++ le64 c.flags ++ le32 c.logLevel ++
    c.tlsType.bytes ++ c.attesterType.bytes ++ c.verifierType.bytes ++ c.cryptoType.bytes ++
    c.behindNames pad

/-- The type names, in the order of the structure. -/
inductive TypeField where
  | tls
  | attester
  | verifier
  | crypto
  deriving DecidableEq, Repr

namespace TypeField

/-- The offset of the field. -/
def offset : TypeField → ℕ
  | tls => 20
  | attester => 52
  | verifier => 84
  | crypto => 116

/-- The type name that lies behind this one. -/
def next : TypeField → Option TypeField
  | tls => some attester
  | attester => some verifier
  | verifier => some crypto
  | crypto => none

def get (f : TypeField) (c : RatsTlsConf) : CharArray 32 :=
  match f with
  | tls => c.tlsType
  | attester => c.attesterType
  | verifier => c.verifierType
  | crypto => c.cryptoType

end TypeField

/-- The optional names, as the bytes of their UTF-8 form. -/
structure TypeNames where
  tlsType : Option Bytes
  crypto : Option Bytes
  attester : Option Bytes
  verifier : Option Bytes
  deriving DecidableEq, Repr

/-- The name for a field, empty where there is none. -/
def TypeNames.get (names : TypeNames) : TypeField → Bytes
  | .tls => names.tlsType.getD []
  | .attester => names.attester.getD []
  | .verifier => names.verifier.getD []
  | .crypto => names.crypto.getD []

/-! ## `RatsTls::new` -/

/-- `if let Some(name) = name { … }`; `none` is a panic. -/
def copyName (a : CharArray 32) : Option Bytes → Option (CharArray 32)
  | some name => a.copyFrom name
  | none => some a

/-- The configuration as far as the call of `rats_tls_init`. -/
def conf (server : Bool) (enclaveId : UInt64) (names : TypeNames) (isMutual : Bool) :
    Option RatsTlsConf := do
  let conf := { RatsTlsConf.default with apiVersion := apiVersionDefault, logLevel := logLevelDebug }
  let tls ← copyName conf.tlsType names.tlsType
  let crypto ← copyName conf.cryptoType names.crypto
  let attester ← copyName conf.attesterType names.attester
  let verifier ← copyName conf.verifierType names.verifier
  let flags := conf.flags ||| if isMutual then confFlagsMutual else 0
  let flags := flags ||| if server then confFlagsServer else 0
  some { conf with
    tlsType := tls
    cryptoType := crypto
    attesterType := attester
    verifierType := verifier
    certAlgo := certAlgoDefault
    enclaveId := enclaveId
    flags := flags }

/-- The configuration passed to `rats_tls_init` and the result of `new`, for the errors that
`rats_tls_init` and `rats_tls_set_verification_callback` report; `none` is a panic. -/
def new (server : Bool) (enclaveId : UInt64) (names : TypeNames) (isMutual : Bool)
    (initErr callbackErr : UInt32) : Option (RatsTlsConf × Except UInt32 Unit) :=
  (conf server enclaveId names isMutual).map fun c =>
    (c, if initErr ≠ errNone then .error initErr
      else if callbackErr = errNone then .ok () else .error callbackErr)

/-! ## What the library reads -/

section Layout

variable (c : RatsTlsConf) (pad : Padding)

/-- The memory behind a type name. -/
def TypeField.behind : TypeField → Bytes
  | tls => c.attesterType.bytes ++ c.verifierType.bytes ++ c.cryptoType.bytes ++ c.behindNames pad
  | attester => c.verifierType.bytes ++ c.cryptoType.bytes ++ c.behindNames pad
  | verifier => c.cryptoType.bytes ++ c.behindNames pad
  | crypto => c.behindNames pad

/-- The offsets are those of the layout. -/
theorem image_drop (f : TypeField) :
    (c.image pad).drop f.offset = (f.get c).bytes ++ f.behind c pad := by
  have hpad := pad.apiVersion.length_eq
  have htls := c.tlsType.length_eq
  have hattester := c.attesterType.length_eq
  have hverifier := c.verifierType.length_eq
  set pre := le32 c.apiVersion ++ pad.apiVersion.bytes ++ le64 c.flags ++ le32 c.logLevel with hpre
  have hlen : pre.length = 20 := by simp [hpre, le32, le64, hpad]
  cases f with
  | tls =>
    have himage : c.image pad = pre ++ (c.tlsType.bytes ++ TypeField.tls.behind c pad) := by
      simp [RatsTlsConf.image, hpre, TypeField.behind]
    rw [himage]
    exact List.drop_left' hlen
  | attester =>
    have himage : c.image pad = (pre ++ c.tlsType.bytes) ++
        (c.attesterType.bytes ++ TypeField.attester.behind c pad) := by
      simp [RatsTlsConf.image, hpre, TypeField.behind]
    rw [himage]
    exact List.drop_left' (by simp [hlen, htls, TypeField.offset])
  | verifier =>
    have himage : c.image pad = (pre ++ c.tlsType.bytes ++ c.attesterType.bytes) ++
        (c.verifierType.bytes ++ TypeField.verifier.behind c pad) := by
      simp [RatsTlsConf.image, hpre, TypeField.behind]
    rw [himage]
    exact List.drop_left' (by simp [hlen, htls, hattester, TypeField.offset])
  | crypto =>
    have himage : c.image pad =
        (pre ++ c.tlsType.bytes ++ c.attesterType.bytes ++ c.verifierType.bytes) ++
          (c.cryptoType.bytes ++ TypeField.crypto.behind c pad) := by
      simp [RatsTlsConf.image, hpre, TypeField.behind]
    rw [himage]
    exact List.drop_left' (by simp [hlen, htls, hattester, hverifier, TypeField.offset])

theorem behind_of_next {f g : TypeField} (h : f.next = some g) :
    f.behind c pad = (g.get c).bytes ++ g.behind c pad := by
  cases f <;> simp only [TypeField.next, Option.some.injEq, reduceCtorEq] at h <;> subst h <;>
    simp [TypeField.behind, TypeField.get]

end Layout

section Names

variable {server isMutual : Bool} {enclaveId : UInt64} {names : TypeNames} {c : RatsTlsConf}
  {pad : Padding} {f : TypeField}

theorem copyName_zeroed {name : Option Bytes} {a : CharArray 32} :
    copyName (.zeroed 32) name = some a ↔ (name.getD []).length ≤ 32 ∧
      a.bytes = name.getD [] ++ List.replicate (32 - (name.getD []).length) 0 := by
  cases name with
  | none =>
    rcases a with ⟨bytes, hlen⟩
    simp [copyName, CharArray.zeroed, eq_comm]
  | some n => exact CharArray.copyFrom_zeroed

/-- `new` gets past the copies exactly if no name is longer than its field. -/
theorem conf_isSome_iff (server : Bool) (enclaveId : UInt64) (names : TypeNames) (isMutual : Bool) :
    (conf server enclaveId names isMutual).isSome = true ↔ ∀ f, (names.get f).length ≤ 32 := by
  have hcopy : ∀ name : Option Bytes, (name.getD []).length ≤ 32 →
      ∃ a, copyName (.zeroed 32) name = some a := by
    intro name hle
    exact ⟨⟨name.getD [] ++ List.replicate (32 - (name.getD []).length) 0, by simp; omega⟩,
      copyName_zeroed.mpr ⟨hle, rfl⟩⟩
  constructor
  · intro h f
    obtain ⟨c, hc⟩ := Option.isSome_iff_exists.mp h
    simp only [conf, RatsTlsConf.default, Option.bind_eq_bind, Option.bind_eq_some_iff] at hc
    obtain ⟨tls, htls, crypto, hcrypto, attester, hattester, verifier, hverifier, _⟩ := hc
    cases f
    · exact (copyName_zeroed.mp htls).1
    · exact (copyName_zeroed.mp hattester).1
    · exact (copyName_zeroed.mp hverifier).1
    · exact (copyName_zeroed.mp hcrypto).1
  · intro h
    obtain ⟨tls, htls⟩ := hcopy names.tlsType (h .tls)
    obtain ⟨crypto, hcrypto⟩ := hcopy names.crypto (h .crypto)
    obtain ⟨attester, hattester⟩ := hcopy names.attester (h .attester)
    obtain ⟨verifier, hverifier⟩ := hcopy names.verifier (h .verifier)
    simp [conf, RatsTlsConf.default, htls, hcrypto, hattester, hverifier]

/-- Each field holds its name and zeros. -/
theorem conf_get (h : conf server enclaveId names isMutual = some c) (f : TypeField) :
    (names.get f).length ≤ 32 ∧
      (f.get c).bytes = names.get f ++ List.replicate (32 - (names.get f).length) 0 := by
  simp only [conf, RatsTlsConf.default, Option.bind_eq_bind, Option.bind_eq_some_iff] at h
  obtain ⟨tls, htls, crypto, hcrypto, attester, hattester, verifier, hverifier, hc⟩ := h
  obtain rfl := Option.some.inj hc
  cases f
  · exact copyName_zeroed.mp htls
  · exact copyName_zeroed.mp hattester
  · exact copyName_zeroed.mp hverifier
  · exact copyName_zeroed.mp hcrypto

theorem conf_certAlgo (h : conf server enclaveId names isMutual = some c) :
    c.certAlgo = certAlgoDefault := by
  simp only [conf, Option.bind_eq_bind, Option.bind_eq_some_iff] at h
  obtain ⟨tls, _, crypto, _, attester, _, verifier, _, hc⟩ := h
  obtain rfl := Option.some.inj hc
  rfl

/-- The names end at the latest in the bytes of `cert_algo`, which is 1. -/
theorem behindNames_eq (h : conf server enclaveId names isMutual = some c) (pad : Padding) :
    ∃ rest, c.behindNames pad = 1 :: 0 :: rest := by
  have hle : le32 certAlgoDefault = [1, 0, 0, 0] := by decide
  exact ⟨_, by simp only [RatsTlsConf.behindNames, conf_certAlgo h, hle]; rfl⟩

/-- The library reads a name as it was given exactly if it has no NUL and is followed by
one: in its own field or, where it fills that, at the start of an empty next one. -/
theorem cString_field_iff (h : conf server enclaveId names isMutual = some c) (pad : Padding)
    (hnul : ∀ g, f.next = some g → 0 ∉ names.get g) :
    cString (c.image pad) f.offset = some (names.get f) ↔ 0 ∉ names.get f ∧
      ((names.get f).length < 32 ∨ ∃ g, f.next = some g ∧ names.get g = []) := by
  obtain ⟨hle, hbytes⟩ := conf_get h f
  obtain ⟨rest, hrest⟩ := behindNames_eq h pad
  have hmem : (c.image pad).drop f.offset = names.get f ++
      (List.replicate (32 - (names.get f).length) 0 ++ f.behind c pad) := by
    rw [image_drop, hbytes, List.append_assoc]
  have hzero : 0 ∈ List.replicate (32 - (names.get f).length) 0 ++ f.behind c pad := by
    apply List.mem_append_right
    cases f <;> simp [TypeField.behind, hrest]
  rw [cString_eq_iff hmem hzero]
  refine and_congr_right fun _ => ?_
  by_cases hlt : (names.get f).length < 32
  · obtain ⟨k, hk⟩ : ∃ k, 32 - (names.get f).length = k + 1 := ⟨31 - (names.get f).length, by omega⟩
    simp [hlt, hk, List.replicate_succ]
  · have hk : 32 - (names.get f).length = 0 := by omega
    rw [hk, List.replicate_zero, List.nil_append, or_iff_right hlt]
    cases hg : f.next with
    | none =>
      obtain rfl : f = .crypto := by cases f <;> simp [TypeField.next] at hg ⊢
      simp [TypeField.behind, hrest]
    | some g =>
      rw [behind_of_next c pad hg, (conf_get h g).2]
      cases hname : names.get g with
      | nil => simp [List.replicate_succ, hname]
      | cons b bs =>
        have hb : b ≠ 0 := by
          rintro rfl
          exact hnul g hg (by simp [hname])
        simp [hb, hname]

end Names

/-- Every name can be read back. -/
def Readable (names : TypeNames) : Prop :=
  (∀ f, 0 ∉ names.get f) ∧
    ∀ f, (names.get f).length < 32 ∨ ∃ g, f.next = some g ∧ names.get g = []

/-- `new` returns an error, or has passed a configuration from which the library reads the
names that were given. It does so exactly if every name fits into its field and, unless the
library reports an error, every name can be read back. -/
theorem names_survive_iff (server : Bool) (enclaveId : UInt64) (names : TypeNames)
    (isMutual : Bool) (initErr callbackErr : UInt32) (pad : Padding) :
    (∃ c r, new server enclaveId names isMutual initErr callbackErr = some (c, r) ∧
      ((∃ err, r = .error err) ∨
        ∀ f, cString (c.image pad) f.offset = some (names.get f))) ↔
    (∀ f, (names.get f).length ≤ 32) ∧
      (initErr ≠ errNone ∨ callbackErr ≠ errNone ∨ Readable names) := by
  have hread : ∀ c, conf server enclaveId names isMutual = some c →
      ((∀ f, cString (c.image pad) f.offset = some (names.get f)) ↔ Readable names) := by
    intro c hc
    constructor
    · intro h
      have hnul : ∀ f, 0 ∉ names.get f := fun f => notMem_of_cString (h f)
      exact ⟨hnul, fun f => ((cString_field_iff hc pad fun g _ => hnul g).mp (h f)).2⟩
    · rintro ⟨hnul, hfit⟩ f
      exact (cString_field_iff hc pad fun g _ => hnul g).mpr ⟨hnul f, hfit f⟩
  rw [← conf_isSome_iff server enclaveId names isMutual]
  cases hconf : conf server enclaveId names isMutual with
  | none => simp [new, hconf]
  | some c =>
    simp only [new, hconf, Option.map_some, Option.some.injEq, Prod.mk.injEq, Option.isSome_some,
      true_and, ← hread c hconf]
    by_cases hinit : initErr = errNone
    · by_cases hcallback : callbackErr = errNone
      · simp [hinit, hcallback]
      · simp [hinit, hcallback]
    · simp [hinit]

/-- A name of 32 bytes for the TLS wrapper. -/
def longName : TypeNames where
  tlsType := some (List.replicate 32 97)
  crypto := some [111]
  attester := some [110]
  verifier := some [115]

/-- The library reads the name of the attester as its continuation. -/
theorem longName_not_survives : ¬ ∀ (server : Bool) (enclaveId : UInt64) (names : TypeNames)
    (isMutual : Bool) (initErr callbackErr : UInt32) (pad : Padding),
    ∃ c r, new server enclaveId names isMutual initErr callbackErr = some (c, r) ∧
      ((∃ err, r = .error err) ∨
        ∀ f, cString (c.image pad) f.offset = some (names.get f)) := by
  intro h
  let pad : Padding := ⟨.zeroed 4, .zeroed 2, .zeroed 2, .zeroed 4⟩
  obtain ⟨c, r, hnew, hsurvive⟩ := h false 0 longName false errNone errNone pad
  obtain ⟨c', hconf, heq⟩ := Option.map_eq_some_iff.mp hnew
  obtain ⟨rfl, rfl⟩ := Prod.mk.inj heq
  rcases hsurvive with ⟨err, herr⟩ | hread
  · simp at herr
  · have hlong : cString (c'.image pad) 20 = some (List.replicate 32 97 ++ [110]) := by
      have hc : (conf false 0 longName false).any (fun c =>
          cString (c.image pad) 20 = some (List.replicate 32 97 ++ [110])) = true := by
        decide +kernel
      simpa [hconf] using hc
    have hname : some (List.replicate 32 97 ++ [110]) = some (longName.get .tls) :=
      hlong.symm.trans (hread .tls)
    revert hname
    decide

end RatsTls

end EnclaveNetworkGateway
