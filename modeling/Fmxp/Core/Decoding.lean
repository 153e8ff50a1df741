import Fmxp.Core.Encoding

/-! `aesDecrypt` and `decodeFrame` as they work with buffers.

All that they read of a buffer they read through its pointer. What they make of it is what `Fmxp.decodeFrame`
makes of the byte list (`decodeFrame_triple`): no read leaves the bytes of its buffer, and however the decoder ends, of
all the buffers it has constructed only the data of the frame it returns is left. -/
namespace Fmxp.Buffers
open Programs ByteBuffer

/-! ### The code -/

/-- Bytes of a known number. -/
def block (n : Nat) (b : Bytes) : Option (Block n) := if h : b.length = n then some ⟨b, h⟩ else none

def failure (what : String) : Failure := .exn (.runtime ⟨what⟩)

/-- `aesDecrypt` -/
def aesDecrypt (A : Allocator) (evp : Evp) (encrypted keyBuf : Name) : Call Name Unit := do
  let keySize ← size keyBuf
  if keySize ≠ 32 then throw (failure "Invalid AES-256 key")
  else
    let n ← size encrypted
    if n < 12 + 16 then throw (failure "Invalid AES packet")
    else
      let key ← peek keyBuf 0 32
      let iv ← peekAs (block 12) encrypted 0 12
      returned A .plaintext (.empty .plaintext) do
        run A (.resize .plaintext (n - 28))
        let ct ← peek encrypted 28 (n - 28).toNat
        match evp.decryptUpdate key iv (cInt (n - 28).toNat) ct with
        | none => throw (.exn (.runtime (throwErr ERR_ENCRYPTION "Decrypt update failed")))
        | some output =>
          poke .plaintext output
          let tag ← peek encrypted 12 16
          if (evp.tag key iv ct).val = tag then run A (.resize .plaintext (UInt64.ofNat output.length))
          else throw (failure "AES authentication failed")

def validateProtocol (this : Name) : Call Name Bool := do
  let n ← size this
  if n < 4 then pure false
  else
    let tag ← peek this 0 4
    pure (tag == protocolTag)

def getFrameVersion (this : Name) : Call Name UInt8 := peekAs List.head? this 4 1
def getFrameBodySize (this : Name) : Call Name UInt32 := peekAs ptrToU32 this 5 4
def getBodyRid (this : Name) : Call Name UInt32 := peekAs ptrToU32 this 0 4
def getBodyFid (this : Name) : Call Name UInt32 := peekAs ptrToU32 this 4 4
def getBodySsid (this : Name) : Call Name UInt64 := peekAs ptrToU64 this 8 8
def getBodyFlags (this : Name) : Call Name UInt8 := peekAs List.head? this 16 1
def getBodyStatus (this : Name) : Call Name UInt8 := peekAs List.head? this 17 1
def getBodyPathLen (this : Name) : Call Name UInt16 := peekAs ptrToU16 this 18 2

/-- `toString()` -/
def contents (this : Name) : Call Name Bytes := do
  let n ← size this
  peek this 0 n.toNat

def refuse {α : Type} (msg : String) : Call Name α := throw (.exn (invalidFrame msg))

/-- What `decodeFrame` does with the body, once it has it. -/
def readBody (A : Allocator) : Call Name FrameHead := do
  let n ← size .body
  if n < 20 then refuse "Body too small"
  else
    let rid ← getBodyRid .body
    let fid ← getBodyFid .body
    let ssid ← getBodySsid .body
    let flags ← getBodyFlags .body
    let status ← getBodyStatus .body
    let pathLen ← getBodyPathLen .body
    if 20 + pathLen.toUInt64 > n then refuse "Invalid path length"
    else
      scope A .path (.fromBytes .path (.buffer .body 20) pathLen.toUInt64) do
        -- `getBodyDataPtr` reads the length of the path once more.
        let again ← getBodyPathLen .body
        scope A .bodyData (.fromBytes .bodyData (.buffer .body (20 + again.toNat)) (n - 20 - pathLen.toUInt64)) do
          returned A .data (.empty .data) do
            let path ← contents .path
            run A (.moveAssign .data .bodyData)
            pure ⟨fid, rid, ssid, status, flags, path⟩

/-- The body of a frame, decrypted or copied. -/
def openBody (A : Allocator) (evp : Evp) (data : Nat) (bodySize : UInt64) (encrypted : Bool) (key : Nat) :
    Call Name Unit :=
  if encrypted then
    scope A .enc (.fromBytes .enc (.buffer (.caller data) headerSize) bodySize) do
      aesDecrypt A evp .enc (.caller key)
      always (run A (.moveAssign .body .plaintext)) (destroyed A .plaintext)
  else
    scope A .copied (.fromBytes .copied (.buffer (.caller data) headerSize) bodySize)
      (run A (.moveAssign .body .copied))

def decodeFrame (A : Allocator) (evp : Evp) (data : Nat) (encrypted : Bool) (key : Nat) : Call Name FrameHead := do
  let n ← size (.caller data)
  if n < 9 then refuse "Invalid frame size"
  else
    let valid ← validateProtocol (.caller data)
    if !valid then refuse "Invalid protocol"
    else
      let version ← getFrameVersion (.caller data)
      if version ≠ fmxpVersion then refuse "Protocol version mismatch"
      else
        let bodySize ← getFrameBodySize (.caller data)
        if bodySize.toUInt64 ≠ n - 9 then refuse "Frame body size mismatch"
        else
          scope A .body (.empty .body) do
            openBody A evp data bodySize.toUInt64 encrypted key
            readBody A

/-! ### What the code computes -/

variable {A : Allocator} {evp : Evp} {l : Lists Name} {x key : Bytes} {encrypted keyBuf : Name}

theorem block_of_length {n : Nat} {b : Bytes} (h : b.length = n) : block n b = some ⟨b, h⟩ := dif_pos h

theorem aesDecrypt_triple (hx : l encrypted = some x) (hkey : l keyBuf = some key) (hplaintext : l .plaintext = none)
    (hroom : x.length ≤ 2 ^ 63) :
    Triple (On (· = l)) (aesDecrypt A evp encrypted keyBuf)
      (fun _ => On fun l' => ∃ out, Fmxp.aesDecrypt evp x key = .ok out ∧
        l' = Function.update l .plaintext (some out))
      (fun e => On fun l' => Fails .runtime (Fmxp.aesDecrypt evp x key) e ∧ l' = l) := by
  unfold aesDecrypt
  refine (size_triple hkey).bind fun keySize => on_given fun hsize => ?_
  refine Triple.ite (fun hne => ?_) fun heq => ?_
  · have hlength : key.length ≠ 32 := by
      rw [← hsize]
      exact fun h => hne (UInt64.toNat_inj.mp h)
    refine Triple.throw ?_
    rintro s ⟨hinv, rfl⟩
    exact ⟨hinv, .inr ⟨_, aesDecrypt_key hlength, rfl⟩, rfl⟩
  have hlength : key.length = 32 := by
    rw [← hsize, Classical.not_not.mp heq]
    rfl
  refine (size_triple hx).bind fun n => on_given fun hn => ?_
  have hlt : n < 12 + 16 ↔ x.length < 12 + 16 := by
    rw [UInt64.lt_iff_toNat_lt, hn]
    rfl
  refine Triple.ite (fun hshort => ?_) fun hlong => ?_
  · refine Triple.throw ?_
    rintro s ⟨hinv, rfl⟩
    refine ⟨hinv, .inr ⟨_, ?_, rfl⟩, rfl⟩
    simp only [Fmxp.aesDecrypt, hlength, ne_eq, not_true_eq_false, if_false, hlt.mp hshort, dif_pos]
  have hge : ¬ x.length < 12 + 16 := fun h => hlong (hlt.mpr h)
  have hrest : (n - 28).toNat = (x.drop 28).length := by
    have hle : (28 : UInt64) ≤ n := UInt64.not_lt.mp hlong
    rw [UInt64.toNat_sub_of_le _ _ hle, hn, List.length_drop]
    rfl
  refine (peek_triple hkey (by omega)).bind fun cells => on_given fun hcells => ?_
  obtain rfl : cells = key := by rw [hcells, List.drop_zero, ← hlength, List.take_length]
  let iv : Block 12 := ⟨x.take 12, by simp; omega⟩
  refine (peekAs_triple (a := iv) hx (by omega) (block_of_length _)).bind fun iv' => on_given fun hiv => ?_
  subst hiv
  have hother : ∀ v, Function.update l .plaintext v encrypted = some x := by
    intro v
    rw [Function.update_of_ne ?_, hx]
    rintro rfl
    rw [hplaintext] at hx
    cases hx
  -- What the decryption of byte lists comes to, by what the cipher makes of the ciphertext.
  have hspec : Fmxp.aesDecrypt evp x cells =
      match evp.decryptUpdate cells iv (cInt (x.drop 28).length) (x.drop 28) with
      | none => .error (throwErr ERR_ENCRYPTION "Decrypt update failed")
      | some output => if (evp.tag cells iv (x.drop 28)).val = (x.drop 12).take 16 then .ok output
          else .error ⟨"AES authentication failed"⟩ := by
    simp only [Fmxp.aesDecrypt, hlength, ne_eq, not_true_eq_false, if_false, hge, dif_neg, not_false_eq_true]
    rfl
  refine returned_triple
    (E := fun e l' => Fails .runtime (Fmxp.aesDecrypt evp x cells) e ∧
      ∃ v, l' = Function.update l .plaintext (some v))
    (empty_triple hplaintext) ?_ ?_ ?_
  · refine (resize_triple (Function.update_self ..) (by rw [hrest, List.length_drop]; omega)
      ⟨.inl rfl, _, rfl⟩).seq ?_
    simp only [Function.update_idem]
    refine on_some fun z => on_given fun hz => ?_
    rw [hrest] at hz ⊢
    refine (peek_triple (hother _) (by rw [List.length_drop]; omega)).bind fun ct => on_given fun hct => ?_
    rw [List.take_length] at hct
    subst hct
    split
    · next hfails =>
      simp only [hfails] at hspec
      refine Triple.throw ?_
      rintro s ⟨hinv, hlists⟩
      exact ⟨hinv, .inr ⟨_, hspec, rfl⟩, z, hlists⟩
    · next output houtput =>
      simp only [houtput] at hspec
      have hout := evp.decrypt_length (cInt_le _) houtput
      have hle := cInt_le (x.drop 28).length
      have hshorter : output.length ≤ x.length := by
        rw [List.length_drop] at hle hout
        omega
      refine (poke_triple (Function.update_self ..) (by omega)).seq ?_
      rw [Function.update_idem]
      refine (peek_triple (hother _) (by omega)).bind fun tag => on_given fun htag => ?_
      subst htag
      refine Triple.ite (fun hgood => ?_) fun hbad => ?_
      · rw [if_pos hgood] at hspec
        have hwritten : (UInt64.ofNat output.length).toNat = output.length := toNat_length (by omega)
        refine (resize_triple (Function.update_self ..) (by omega) ⟨.inl rfl, _, rfl⟩).weaken (fun _ hs => hs) ?_
          (fun _ _ hs => hs)
        rintro _ s ⟨hinv, z', hz', hlists⟩
        obtain rfl : z' = output := by
          have htake := hz'.2
          rw [List.take_of_length_le (by simp; omega), hz'.1, hwritten, List.take_left] at htake
          exact htake
        rw [Function.update_idem] at hlists
        exact ⟨hinv, _, hspec, hlists⟩
      · rw [if_neg hbad] at hspec
        refine Triple.throw ?_
        rintro s ⟨hinv, hlists⟩
        exact ⟨hinv, .inr ⟨_, hspec, rfl⟩, _, hlists⟩
  · rintro e l' ⟨-, v, rfl⟩
    rw [Function.update_self]
    rfl
  · rintro e l' ⟨he, v, rfl⟩
    exact ⟨he, update_undone hplaintext _⟩

/-! ### Reading a body -/

section
variable (rid fid : UInt32) (ssid : UInt64) (flags status : UInt8) (pathLen : UInt16) (rest : Bytes)

/-- The fields, through pointers into the body. -/
theorem bodyHeader_peeks :
    let body := bodyHeader rid fid ssid flags status pathLen ++ rest
    ptrToU32 ((body.drop 0).take 4) = some rid ∧ ptrToU32 ((body.drop 4).take 4) = some fid ∧
      ptrToU64 ((body.drop 8).take 8) = some ssid ∧ ((body.drop 16).take 1).head? = some flags ∧
      ((body.drop 17).take 1).head? = some status ∧ ptrToU16 ((body.drop 18).take 2) = some pathLen := by
  have hrid := ptrToU32_u32ToStr rid []
  have hfid := ptrToU32_u32ToStr fid []
  have hssid := ptrToU64_u64ToStr ssid []
  have hpathLen := ptrToU16_u16ToStr pathLen []
  rw [List.append_nil] at hrid hfid hssid hpathLen
  exact ⟨hrid, hfid, hssid, rfl, rfl, hpathLen⟩

end

theorem contents_triple {this : Name} {E : Failure → State Name → Prop} (hx : l this = some x) :
    Triple (On (· = l)) (contents this) (fun b => On fun l' => b = x ∧ l' = l) E := by
  unfold contents
  refine (size_triple hx).bind fun n => on_given fun hn => ?_
  refine (peek_triple hx (by omega)).weaken (fun _ hs => hs) ?_ (fun _ _ hs => hs)
  rintro b s ⟨hinv, hb, hlists⟩
  exact ⟨hinv, by rw [hb, List.drop_zero, hn, List.take_length], hlists⟩

/-- The frame that is returned: its path is copied, the data moved out of `bodyData`. -/
theorem frame_triple {path data : Bytes} {E : Failure → Lists Name → Prop} (make : Bytes → FrameHead)
    (hpath : l .path = some path) (hbodyData : l .bodyData = some data) (hdata : l .data = none) :
    Triple (On (· = l))
      (returned A .data (.empty .data) do
        let path ← contents .path
        run A (.moveAssign .data .bodyData)
        pure (make path))
      (fun head => On fun l' => head = make path ∧
        l' = Function.update (Function.update l .data (some data)) .bodyData (some []))
      (fun e => On (E e)) := by
  have hother : ∀ {this : Name} {y : Option Bytes} (v : Option Bytes), this ≠ .data → l this = y →
      Function.update l .data v this = y := by
    rintro this y v hne rfl
    exact Function.update_of_ne hne ..
  refine returned_triple (E := fun _ _ => False) (empty_triple hdata) ?_ (fun _ _ h => h.elim) (fun _ _ h => h.elim)
  refine (contents_triple (hother _ (by decide) hpath)).bind fun b => on_given fun hb => ?_
  subst hb
  refine (moveAssign_triple (by decide) (Function.update_self ..) (hother _ (by decide) hbodyData)).seq ?_
  rw [Function.update_idem]
  refine Triple.pure ?_
  rintro s ⟨hinv, hlists⟩
  exact ⟨hinv, rfl, hlists⟩

theorem readBody_triple {body : Bytes} (hbody : l .body = some body) (hpath : l .path = none)
    (hbodyData : l .bodyData = none) (hdata : l .data = none) (hroom : body.length ≤ 2 ^ 63) :
    Triple (On (· = l)) (readBody A)
      (fun head => On fun l' => ∃ data, decodeBody body = .ok (head.frame data) ∧
        l' = Function.update l .data (some data))
      (fun e => On fun l' => Fails id (decodeBody body) e ∧ l' = l) := by
  unfold readBody
  refine (size_triple hbody).bind fun n => on_given fun hn => ?_
  have hlt : n < 20 ↔ body.length < bodyHeaderSize := by
    rw [UInt64.lt_iff_toNat_lt, hn]
    rfl
  refine Triple.ite (fun hshort => ?_) fun hlong => ?_
  · refine Triple.throw ?_
    rintro s ⟨hinv, hlists⟩
    exact ⟨hinv, .inr ⟨_, decodeBody_short (hlt.mp hshort), rfl⟩, hlists⟩
  obtain ⟨rid, fid, ssid, flags, status, pathLen, hsplit⟩ :=
    split_bodyHeader (Nat.le_of_not_lt fun h => hlong (hlt.mpr h))
  generalize body.drop bodyHeaderSize = rest at hsplit
  subst hsplit
  have hspec := decodeBody_header rid fid ssid flags status pathLen rest
  obtain ⟨hrid, hfid, hssid, hflags, hstatus, hpathLen⟩ := bodyHeader_peeks rid fid ssid flags status pathLen rest
  have hsize : (bodyHeader rid fid ssid flags status pathLen ++ rest).length = 20 + rest.length := by
    rw [List.length_append, length_bodyHeader]
    rfl
  have hdrop : ∀ k, (bodyHeader rid fid ssid flags status pathLen ++ rest).drop (20 + k) = rest.drop k := by
    intro k
    rw [← List.drop_drop]
    exact congrArg (List.drop k) (List.drop_left' (length_bodyHeader ..))
  rw [hsize] at hn hroom
  generalize bodyHeader rid fid ssid flags status pathLen ++ rest = body at *
  refine (peekAs_triple hbody (by omega) hrid).bind fun rid => on_given ?_
  rintro rfl
  refine (peekAs_triple hbody (by omega) hfid).bind fun fid => on_given ?_
  rintro rfl
  refine (peekAs_triple hbody (by omega) hssid).bind fun ssid => on_given ?_
  rintro rfl
  refine (peekAs_triple hbody (by omega) hflags).bind fun flags => on_given ?_
  rintro rfl
  refine (peekAs_triple hbody (by omega) hstatus).bind fun status => on_given ?_
  rintro rfl
  refine (peekAs_triple hbody (by omega) hpathLen).bind fun pathLen => on_given ?_
  rintro rfl
  have hwidth := pathLen.toNat_lt
  have hsum : (20 + pathLen.toUInt64).toNat = 20 + pathLen.toNat := by
    rw [UInt64.toNat_add, UInt16.toNat_toUInt64]
    exact Nat.mod_eq_of_lt (by simp; omega)
  have hfits : 20 + pathLen.toUInt64 > n ↔ ¬ pathLen.toNat ≤ rest.length := by
    rw [gt_iff_lt, UInt64.lt_iff_toNat_lt, hsum, hn]
    omega
  refine Triple.ite (fun hlong => ?_) fun hfit => ?_
  · refine Triple.throw ?_
    rintro s ⟨hinv, hlists⟩
    exact ⟨hinv, .inr ⟨_, hspec.trans (if_neg (hfits.mp hlong)), rfl⟩, hlists⟩
  have hle : pathLen.toNat ≤ rest.length := Classical.not_not.mp (mt hfits.mpr hfit)
  rw [if_pos hle] at hspec
  have hdataLen : (n - 20 - pathLen.toUInt64).toNat = (rest.drop pathLen.toNat).length := by
    have h20 : (20 : UInt64) ≤ n := UInt64.not_lt.mp hlong
    have hsub : (n - 20).toNat = rest.length := by
      rw [UInt64.toNat_sub_of_le _ _ h20, hn]
      exact Nat.add_sub_cancel_left ..
    have hpathLen' : pathLen.toUInt64 ≤ n - 20 := by
      rw [UInt64.le_iff_toNat_le, hsub, UInt16.toNat_toUInt64]
      exact hle
    rw [UInt64.toNat_sub_of_le _ _ hpathLen', hsub, UInt16.toNat_toUInt64, List.length_drop]
  -- The path, and in its scope the data.
  have hcopied : ∀ (m : Lists Name) (k : Nat) (len : UInt64) (y : Bytes), m .body = some body →
      copyFrom (rest.drop k) len.toNat = some y → (Operand.buffer .body (20 + k)).bytes m len = some y := by
    intro m k len y hm hy
    rw [Operand.bytes, hm, Option.bind_some, hdrop, hy]
  have hpathBytes : copyFrom (rest.drop 0) pathLen.toUInt64.toNat = some (rest.take pathLen.toNat) := by
    rw [UInt16.toNat_toUInt64, List.drop_zero, copyFrom_of_le hle]
  have hdataBytes : copyFrom (rest.drop pathLen.toNat) (n - 20 - pathLen.toUInt64).toNat =
      some (rest.drop pathLen.toNat) := by
    rw [hdataLen, copyFrom_of_le (Nat.le_refl _), List.take_length]
  let m := Function.update l .path (some (rest.take pathLen.toNat))
  have hpath' : m .path = some (rest.take pathLen.toNat) := Function.update_self ..
  have hm : ∀ {this : Name} {y : Option Bytes}, this ≠ .path → l this = y → m this = y := by
    rintro this y hne rfl
    exact Function.update_of_ne hne ..
  let m' := Function.update m .bodyData (some (rest.drop pathLen.toNat))
  have hm' : ∀ {this : Name} {y : Option Bytes}, this ≠ .bodyData → m this = y → m' this = y := by
    rintro this y hne rfl
    exact Function.update_of_ne hne ..
  let head : FrameHead := ⟨fid, rid, ssid, status, flags, rest.take pathLen.toNat⟩
  have hmemory : Fails id (decodeBody body) (.buffer .badAlloc) := .inl rfl
  refine scope_triple (M := (· = m)) (E := fun e l' => Fails id (decodeBody body) e ∧ l' = m)
    (Q := fun head' l' => head' = head ∧ l' = Function.update m .data (some (rest.drop pathLen.toNat)))
    (fromBytes_triple hpath (hcopied _ 0 _ _ hbody hpathBytes) (by rw [UInt16.toNat_toUInt64]; omega) ⟨hmemory, rfl⟩)
    ?_ ?_ ?_ ?_ ?_
  · refine (peekAs_triple (hm (by decide) hbody) (by omega) hpathLen).bind fun again => on_given ?_
    rintro rfl
    refine scope_triple (M := (· = m')) (E := fun _ _ => False)
      (Q := fun head' l' => head' = head ∧ l' = Function.update (Function.update m' .data
        (some (rest.drop again.toNat))) .bodyData (some []))
      (fromBytes_triple (hm (by decide) hbodyData) (hcopied _ _ _ _ (hm (by decide) hbody) hdataBytes)
        (by rw [hdataLen, List.length_drop]; omega) ⟨hmemory, rfl⟩)
      (frame_triple (fun path => ⟨fid, rid, ssid, status, flags, path⟩) (hm' (by decide) hpath')
        (Function.update_self ..) (hm' (by decide) (hm (by decide) hdata)))
      ?_ ?_ (fun _ _ h => h.elim) (fun _ _ h => h.elim)
    · rintro _ _ ⟨-, rfl⟩
      rw [Function.update_self]
      rfl
    · rintro _ _ ⟨rfl, rfl⟩
      refine ⟨rfl, ?_⟩
      rw [Function.update_idem, Function.update_comm (by decide), update_undone (hm (by decide) hbodyData)]
  · rintro _ _ ⟨-, rfl⟩
    rw [Function.update_of_ne (by decide), hpath']
    rfl
  · rintro _ _ ⟨rfl, rfl⟩
    refine ⟨_, hspec, ?_⟩
    rw [Function.update_comm (by decide), update_undone hpath]
  · rintro _ _ ⟨-, rfl⟩
    rw [hpath']
    rfl
  · rintro _ _ ⟨he, rfl⟩
    exact ⟨he, update_undone hpath _⟩

/-! ### Decoding a frame -/

/-- What the two ways to obtain the body have in common: the bytes behind the header are copied, the copy is used in
`opened`, and what that leaves in the body is moved there. -/
theorem openBody_triple {d k : Nat} {bodySize : UInt64} {encrypted : Bool} (hunused : Unused l)
    (hx : l (.caller d) = some x) (hkey : l (.caller k) = some key) (hsize : bodySize.toNat = (x.drop headerSize).length)
    (hroom : x.length ≤ 2 ^ 63) :
    Triple (On (· = Function.update l .body (some []))) (openBody A evp d bodySize encrypted k)
      (fun _ => On fun l' => ∃ body, (Fmxp.openBody evp (x.drop headerSize) encrypted key = .ok body ∧
        body.length ≤ 2 ^ 63) ∧ l' = Function.update l .body (some body))
      (fun e => On fun l' => Fails id (Fmxp.openBody evp (x.drop headerSize) encrypted key) e ∧
        l' = Function.update l .body (some [])) := by
  let m := Function.update l .body (some [])
  have hm : ∀ {this : Name} {y : Option Bytes}, this ≠ .body → l this = y → m this = y := by
    rintro this y hne rfl
    exact Function.update_of_ne hne ..
  have hnew : ∀ {this : Name}, this ≠ .body → (∀ i, this ≠ .caller i) → m this = none :=
    fun hne hlocal => hm hne (hunused _ hlocal)
  have hbody : m .body = some [] := Function.update_self ..
  have hlength : (x.drop headerSize).length ≤ 2 ^ 63 := by
    rw [List.length_drop]
    omega
  have hbytes : (Operand.buffer (Name.caller d) headerSize).bytes m bodySize = some (x.drop headerSize) := by
    rw [Operand.bytes, hm Name.noConfusion hx, Option.bind_some, hsize, copyFrom_of_le (Nat.le_refl _), List.take_length]
  unfold openBody
  cases encrypted with
  | false =>
    refine scope_triple (M := (· = Function.update m .copied (some (x.drop headerSize))))
      (Q := fun _ l' => l' = Function.update (Function.update (Function.update m .copied (some (x.drop headerSize)))
        .body (some (x.drop headerSize))) .copied (some [])) (E := fun _ _ => False)
      (fromBytes_triple (hnew (by decide) fun _ => Name.noConfusion) hbytes (hsize ▸ hlength) ⟨.inl rfl, rfl⟩)
      (moveAssign_triple (by decide) ((Function.update_of_ne (by decide) ..).trans hbody) (Function.update_self ..))
      ?_ ?_ (fun _ _ h => h.elim) (fun _ _ h => h.elim)
    · rintro _ _ rfl
      rw [Function.update_self]
      rfl
    · rintro _ _ rfl
      refine ⟨_, ⟨rfl, hlength⟩, ?_⟩
      rw [Function.update_idem, Function.update_comm (by decide),
        update_undone (hnew (by decide) fun _ => Name.noConfusion), Function.update_idem]
  | true =>
    let m' := Function.update m .enc (some (x.drop headerSize))
    have hm' : ∀ {this : Name} {y : Option Bytes}, this ≠ .enc → m this = y → m' this = y := by
      rintro this y hne rfl
      exact Function.update_of_ne hne ..
    have henc : m .enc = none := hnew (by decide) fun _ => Name.noConfusion
    have henc' : m' .enc = some (x.drop headerSize) := Function.update_self ..
    have hplaintext : m' .plaintext = none := hm' (by decide) (hnew (by decide) fun _ => Name.noConfusion)
    have hfails : ∀ {e}, Fails .runtime (Fmxp.aesDecrypt evp (x.drop headerSize) key) e →
        Fails id (Fmxp.openBody evp (x.drop headerSize) true key) e := by
      rintro e (rfl | ⟨err, herr, rfl⟩)
      · exact .inl rfl
      · exact .inr ⟨.runtime err, by rw [Fmxp.openBody, if_pos rfl, herr]; rfl, rfl⟩
    refine scope_triple (M := (· = m'))
      (Q := fun _ l' => ∃ out, Fmxp.aesDecrypt evp (x.drop headerSize) key = .ok out ∧
        l' = Function.update m' .body (some out))
      (E := fun e l' => Fails id (Fmxp.openBody evp (x.drop headerSize) true key) e ∧ l' = m')
      (fromBytes_triple henc hbytes (hsize ▸ hlength) ⟨.inl rfl, rfl⟩)
      (((aesDecrypt_triple henc' (hm' Name.noConfusion (hm Name.noConfusion hkey)) hplaintext hlength).weaken
        (fun _ hs => hs) (fun _ _ hs => hs) ?_).seq ?_) ?_ ?_ ?_ ?_
    · rintro e s ⟨hinv, he, hlists⟩
      exact ⟨hinv, hfails he, hlists⟩
    · refine on_some fun out => on_given fun hout => ?_
      -- The plaintext is moved into the body, and what is left of it goes.
      refine Triple.always (moveAssign_triple (E := fun _ _ => False) (by decide)
        ((Function.update_of_ne (by decide) ..).trans (hm' (by decide) hbody)) (Function.update_self ..)) ?_
        fun _ _ h => h.2.elim
      rintro _ s hs
      refine destroyed_spec hs ?_ ?_
      · rintro _ rfl
        rw [Function.update_self]
        rfl
      · rintro _ rfl
        refine ⟨out, hout, ?_⟩
        rw [Function.update_idem, Function.update_comm (by decide), update_undone hplaintext]
    · rintro _ _ ⟨out, -, rfl⟩
      rw [Function.update_of_ne (by decide), henc']
      rfl
    · rintro _ _ ⟨out, hout, rfl⟩
      refine ⟨out, ⟨by rw [Fmxp.openBody, if_pos rfl, hout]; rfl, ?_⟩, ?_⟩
      · obtain ⟨-, -, hlen⟩ := aesDecrypt_ok hout
        have hle := cInt_le ((x.drop headerSize).length - 28)
        omega
      · rw [Function.update_comm (by decide), update_undone henc, Function.update_idem]
    · rintro _ _ ⟨-, rfl⟩
      rw [henc']
      rfl
    · rintro _ _ ⟨he, rfl⟩
      exact ⟨he, update_undone henc _⟩

/-- The tests of the header, one after the other, on the bytes that are read for them. -/
theorem decodeFrame_tests (evp : Evp) {x : Bytes} (hlong : ¬ x.length < headerSize) (encrypted : Bool) (key : Bytes) :
    ∃ version bodySize, ((x.drop 4).take 1).head? = some version ∧ ptrToU32 ((x.drop 5).take 4) = some bodySize ∧
      Fmxp.decodeFrame evp x encrypted key =
        if x.take 4 = protocolTag then
          if version = fmxpVersion then
            if bodySize.toNat = x.length - headerSize then
              (Fmxp.openBody evp (x.drop headerSize) encrypted key).bind decodeBody
            else .error (invalidFrame "Frame body size mismatch")
          else .error (invalidFrame "Protocol version mismatch")
        else .error (invalidFrame "Invalid protocol") := by
  have h9 : 9 ≤ x.length := Nat.le_of_not_lt hlong
  obtain ⟨version, hversion⟩ := split_u8 (p := x.drop 4) (by rw [List.length_drop]; omega)
  obtain ⟨bodySize, hsize⟩ := split_u32 (p := x.drop 5) (by rw [List.length_drop]; omega)
  have hwidth : (u32ToStr bodySize).length = 4 := rfl
  have hread := ptrToU32_u32ToStr bodySize []
  rw [List.append_nil] at hread
  refine ⟨version, bodySize, by rw [hversion]; rfl, by rw [hsize, List.take_left' hwidth, hread], ?_⟩
  have hv : Fmxp.getFrameVersion x = some version := by rw [Fmxp.getFrameVersion, hversion]; rfl
  have hn : Fmxp.getFrameBodySize x = some bodySize := by rw [Fmxp.getFrameBodySize, hsize, ptrToU32_u32ToStr]
  have hproto : Fmxp.validateProtocol x = decide (x.take 4 = protocolTag) := by
    have h4 : 4 ≤ x.length := by omega
    rw [Fmxp.validateProtocol, decide_eq_true h4, Bool.true_and]
    exact beq_eq_decide ..
  by_cases htag : x.take 4 = protocolTag
  · by_cases hv1 : version = fmxpVersion
    · by_cases hm : bodySize.toNat = x.length - headerSize
      · have hcopy : copyFrom (getFrameBodyPtr x) (x.length - headerSize) = some (x.drop headerSize) := by
          have hrest : (getFrameBodyPtr x).length = x.length - headerSize := List.length_drop
          rw [← hrest, copyFrom_of_le (Nat.le_refl _), List.take_length]
          rfl
        simp only [Fmxp.decodeFrame, hproto, htag, hv, hv1, hn, hm, hlong, hcopy, deref, if_false, if_true,
          decide_true, Bool.not_true, Bool.false_eq_true, ne_eq, not_true_eq_false, bind, Except.bind]
      · simp [Fmxp.decodeFrame, hproto, htag, hv, hv1, hn, hm, hlong, deref, bind, Except.bind]
        rfl
    · simp [Fmxp.decodeFrame, hproto, htag, hv, hv1, hlong, deref, bind, Except.bind]
      rfl
  · simp [Fmxp.decodeFrame, hproto, htag, hlong, bind, Except.bind]
    rfl

theorem validateProtocol_triple {this : Name} {E : Failure → State Name → Prop} (hx : l this = some x) :
    Triple (On (· = l)) (validateProtocol this)
      (fun valid => On fun l' => (valid = true ↔ 4 ≤ x.length ∧ x.take 4 = protocolTag) ∧ l' = l) E := by
  unfold validateProtocol
  refine (size_triple hx).bind fun n => on_given fun hn => ?_
  have hlt : n < 4 ↔ x.length < 4 := by
    rw [UInt64.lt_iff_toNat_lt, hn]
    rfl
  refine Triple.ite (fun hshort => ?_) fun hlong => ?_
  · refine Triple.pure ?_
    rintro s ⟨hinv, hlists⟩
    refine ⟨hinv, iff_of_false Bool.false_ne_true fun h => ?_, hlists⟩
    exact Nat.not_lt.mpr h.1 (hlt.mp hshort)
  · have hle : 4 ≤ x.length := Nat.le_of_not_lt fun h => hlong (hlt.mpr h)
    refine (peek_triple hx (by omega)).bind fun tag => on_given fun htag => ?_
    refine Triple.pure ?_
    rintro s ⟨hinv, hlists⟩
    refine ⟨hinv, ?_, hlists⟩
    rw [beq_iff_eq, htag]
    exact ⟨fun h => ⟨hle, h⟩, And.right⟩

/-- **`decodeFrame` on buffers**: it returns the frame that the byte list decodes to, its data in a buffer, or throws
what the decoder of byte lists throws, or for want of memory; and nothing else has changed. -/
theorem decodeFrame_triple {d k : Nat} {encrypted : Bool} (hunused : Unused l) (hx : l (.caller d) = some x)
    (hkey : l (.caller k) = some key) (hroom : x.length ≤ 2 ^ 63) :
    Triple (On (· = l)) (decodeFrame A evp d encrypted k)
      (fun head => On fun l' => ∃ data, Fmxp.decodeFrame evp x encrypted key = .ok (head.frame data) ∧
        l' = Function.update l .data (some data))
      (fun e => On fun l' => Fails id (Fmxp.decodeFrame evp x encrypted key) e ∧ l' = l) := by
  have hrefuse : ∀ {msg : String}, Fmxp.decodeFrame evp x encrypted key = .error (invalidFrame msg) →
      Triple (On (· = l)) (refuse msg)
        (fun head : FrameHead => On fun l' => ∃ data, Fmxp.decodeFrame evp x encrypted key = .ok (head.frame data) ∧
          l' = Function.update l .data (some data))
        (fun e => On fun l' => Fails id (Fmxp.decodeFrame evp x encrypted key) e ∧ l' = l) := by
    intro msg hspec
    refine Triple.throw ?_
    rintro s ⟨hinv, hlists⟩
    exact ⟨hinv, .inr ⟨_, hspec, rfl⟩, hlists⟩
  unfold decodeFrame
  refine (size_triple hx).bind fun n => on_given fun hn => ?_
  have hlt : n < 9 ↔ x.length < headerSize := by
    rw [UInt64.lt_iff_toNat_lt, hn]
    rfl
  refine Triple.ite (fun hshort => ?_) fun hlong => ?_
  · exact hrefuse (by rw [Fmxp.decodeFrame, if_pos (hlt.mp hshort)]; rfl)
  have hlong' : ¬ x.length < headerSize := fun h => hlong (hlt.mpr h)
  have h9 : 9 ≤ x.length := Nat.le_of_not_lt hlong'
  obtain ⟨version, bodySize, hversion, hbodySize, hspec⟩ := decodeFrame_tests evp hlong' encrypted key
  refine (validateProtocol_triple hx).bind fun valid => on_given fun hvalid => ?_
  refine Triple.ite (fun hinvalid => ?_) fun hproto => ?_
  · have htag : ¬ x.take 4 = protocolTag := by
      intro h
      rw [hvalid.mpr ⟨by omega, h⟩] at hinvalid
      cases hinvalid
    exact hrefuse (by rw [hspec, if_neg htag])
  have htag : x.take 4 = protocolTag := by
    rw [Bool.not_eq_true', Bool.not_eq_false] at hproto
    exact (hvalid.mp hproto).2
  rw [if_pos htag] at hspec
  refine (peekAs_triple hx (by omega) hversion).bind fun v => on_given fun hv => ?_
  subst hv
  refine Triple.ite (fun hne => ?_) fun heq => ?_
  · exact hrefuse (by rw [hspec, if_neg hne])
  rw [if_pos (Classical.not_not.mp heq)] at hspec
  refine (peekAs_triple hx (by omega) hbodySize).bind fun b => on_given fun hb => ?_
  subst hb
  have hrest : (n - 9).toNat = x.length - headerSize := by
    rw [UInt64.toNat_sub_of_le _ _ (UInt64.not_lt.mp hlong), hn]
    rfl
  have hmatch : b.toUInt64 = n - 9 ↔ b.toNat = x.length - headerSize := by
    rw [← UInt64.toNat_inj, UInt32.toNat_toUInt64, hrest]
  refine Triple.ite (fun hne => ?_) fun heq => ?_
  · exact hrefuse (by rw [hspec, if_neg (mt hmatch.mpr hne)])
  have hm : b.toNat = x.length - headerSize := hmatch.mp (Classical.not_not.mp heq)
  rw [if_pos hm] at hspec
  have hbody : l .body = none := hunused _ fun _ => Name.noConfusion
  -- Whatever is thrown from here on, the body is there and goes.
  refine scope_triple (M := (· = Function.update l .body (some [])))
    (Q := fun (head : FrameHead) l' => ∃ data, Fmxp.decodeFrame evp x encrypted key = .ok (head.frame data) ∧
      ∃ v, l' = Function.update (Function.update l .body (some v)) .data (some data))
    (E := fun e l' => Fails id (Fmxp.decodeFrame evp x encrypted key) e ∧ ∃ v, l' = Function.update l .body (some v))
    (empty_triple hbody) ?_ ?_ ?_ ?_ ?_
  · refine ((openBody_triple hunused hx hkey (by rw [UInt32.toNat_toUInt64, hm, List.length_drop]) hroom).weaken
      (fun _ hs => hs) (fun _ _ hs => hs) ?_).seq ?_
    · rintro e s ⟨hinv, hfails, hlists⟩
      refine ⟨hinv, ?_, [], hlists⟩
      rcases hfails with rfl | ⟨err, herr, rfl⟩
      · exact .inl rfl
      · exact .inr ⟨err, by rw [hspec, herr]; rfl, rfl⟩
    refine on_some fun body => on_given fun hbody' => ?_
    obtain ⟨hopened, hsmall⟩ := hbody'
    rw [hopened] at hspec
    have hm : ∀ {this : Name}, this ≠ .body → (∀ i, this ≠ .caller i) →
        Function.update l .body (some body) this = none :=
      fun hne hlocal => (Function.update_of_ne hne ..).trans (hunused _ hlocal)
    refine (readBody_triple (A := A) (Function.update_self ..) (hm (by decide) fun _ => Name.noConfusion)
      (hm (by decide) fun _ => Name.noConfusion) (hm (by decide) fun _ => Name.noConfusion) hsmall).weaken
      (fun _ hs => hs) ?_ ?_
    · rintro head s ⟨hinv, data, hdata, hlists⟩
      exact ⟨hinv, data, hspec.trans hdata, body, hlists⟩
    · rintro e s ⟨hinv, hfails, hlists⟩
      refine ⟨hinv, ?_, body, hlists⟩
      rw [hspec]
      exact hfails
  · rintro _ _ ⟨data, -, v, rfl⟩
    rw [Function.update_of_ne (by decide), Function.update_self]
    rfl
  · rintro _ _ ⟨data, hdata, v, rfl⟩
    refine ⟨data, hdata, ?_⟩
    rw [Function.update_comm (by decide), update_undone hbody]
  · rintro _ _ ⟨-, v, rfl⟩
    rw [Function.update_self]
    rfl
  · rintro _ _ ⟨he, v, rfl⟩
    exact ⟨he, update_undone hbody _⟩

end Fmxp.Buffers
