import Fmxp.Core.Calls
import Fmxp.Core.Codec

/-! `aesEncrypt` and `encodeFrame` as they work with buffers.

Their parameters are buffers of the caller, their locals and what they return are named after the variables of
the code, with two names for temporaries. What they compute is what `Fmxp.aesEncrypt` and `Fmxp.encodeFrame`
compute of byte lists (`encodeFrame_triple`); when they throw, also for want of memory, all they have constructed
is gone. -/
namespace Fmxp.Buffers
open Programs ByteBuffer Transition

/-- The buffers of the codec's functions. `literal` is the temporary made of the protocol's name, `packet` what
`aesEncrypt` returns, `plaintext` what `aesDecrypt` returns, `copied` the temporary body of a frame in the clear. -/
inductive Name where
  | caller (i : Nat)
  | encoded
  | literal
  | body
  | ciphertext
  | packet
  | enc
  | plaintext
  | copied
  | path
  | bodyData
  | data
  deriving DecidableEq, Repr

/-- None of the locals is in use. -/
def Unused (l : Lists Name) : Prop := ∀ this, (∀ i, this ≠ .caller i) → l this = none

/-! ### The code -/

/-- `aesEncrypt`. The size that `EVP_EncryptUpdate` reports is that of what it writes; `EVP_EncryptFinal_ex` adds
nothing in this mode. -/
def aesEncrypt (A : Allocator) (evp : Evp) (iv : Block 12) (input keyBuf : Name) : Call Name Unit := do
  let keySize ← size keyBuf
  if keySize ≠ 32 then throw (.exn (.runtime ⟨"Invalid AES-256 key"⟩))
  else
    let key ← peek keyBuf 0 32
    scope A .ciphertext (.empty .ciphertext) do
      let n ← size input
      run A (.reserve .ciphertext n)
      run A (.resize .ciphertext n)
      let plaintext ← peek input 0 n.toNat
      match evp.encryptUpdate key iv (cInt n.toNat) plaintext with
      | none => throw (.exn (.runtime (throwErr ERR_ENCRYPTION "Encrypt update failed")))
      | some output =>
        poke .ciphertext output
        run A (.resize .ciphertext (UInt64.ofNat output.length))
        returned A .packet (.empty .packet) do
          run A (.append .packet (.memory iv.val) 12)
          run A (.append .packet (.memory (evp.tag key iv output).val) 16)
          run A (.addAssign .packet .ciphertext)

/-- The fields of a frame but its data, which is a buffer. -/
structure FrameHead where
  fid : UInt32
  rid : UInt32
  ssid : UInt64
  status : UInt8
  flags : UInt8
  path : Bytes
  deriving DecidableEq, Repr

def FrameHead.frame (head : FrameHead) (data : Bytes) : Frame :=
  ⟨head.fid, head.rid, head.ssid, head.status, head.flags, head.path, data⟩

/-- The statements that fill `body`. -/
def fillBody (A : Allocator) (frame : FrameHead) (data : Nat) (fidReplacement : UInt32) : Call Name Unit := do
  run A (.addAssignString .body (u32ToStr frame.rid))
  run A (.addAssignString .body (u32ToStr (if fidReplacement = 0 then frame.fid else fidReplacement)))
  run A (.addAssignString .body (u64ToStr frame.ssid))
  run A (.addAssignString .body (u8ToStr frame.flags))
  run A (.addAssignString .body (u8ToStr frame.status))
  run A (.addAssignString .body (u16ToStr (UInt16.ofNat frame.path.length)))
  run A (.addAssignString .body frame.path)
  run A (.addAssign .body (.caller data))

/-- `if (encrypt) body = aesEncrypt(body, key);` -/
def sealBody (A : Allocator) (evp : Evp) (iv : Block 12) (encrypt : Bool) (key : Nat) : Call Name Unit :=
  if encrypt then do
    aesEncrypt A evp iv .body (.caller key)
    always (run A (.moveAssign .body .packet)) (destroyed A .packet)
  else pure ()

def encodeFrame (A : Allocator) (evp : Evp) (iv : Block 12) (frame : FrameHead) (data : Nat) (encrypt : Bool)
    (key : Nat) (fidReplacement : UInt32) : Call Name Unit :=
  returned A .encoded (.empty .encoded) do
    scope A .literal (.fromChars .literal (.memory (protocolTag ++ [0])) 4) (run A (.addAssign .encoded .literal))
    run A (.addAssignString .encoded (u8ToStr fmxpVersion))
    scope A .body (.empty .body) do
      fillBody A frame data fidReplacement
      sealBody A evp iv encrypt key
      let n ← size .body
      run A (.addAssignString .encoded (u32ToStr (UInt32.ofNat n.toNat)))
      run A (.addAssign .encoded .body)

/-! ### What the code computes -/

variable {A : Allocator} {evp : Evp} {iv : Block 12} {l : Lists Name} {input keyBuf : Name} {plaintext key : Bytes}

/-- What is thrown where the same on byte lists comes to `r`: its exception, or one for want of memory. -/
def Fails {ε α : Type} (exn : ε → Exn) (r : Except ε α) (e : Failure) : Prop :=
  e = .buffer .badAlloc ∨ ∃ err, r = .error err ∧ e = .exn (exn err)

theorem update_undone {this : Name} (hnew : l this = none) (v : Option Bytes) :
    Function.update (Function.update l this v) this none = l := by
  rw [Function.update_idem, ← hnew, Function.update_eq_self]

theorem memory_bytes {b : Bytes} {n : UInt64} (h : b.length = n.toNat) : (Operand.memory b).bytes l n = some b := by
  rw [Operand.bytes, ← h, copyFrom_of_le (Nat.le_refl _), List.take_length]

/-- The packet of a ciphertext. -/
theorem packet_triple {output : Bytes} {E : Failure → Lists Name → Prop} (hnew : l .packet = none)
    (houtput : l .ciphertext = some output) (hroom : output.length ≤ 2 ^ 62) (hthrew : E (.buffer .badAlloc) l) :
    Triple (On (· = l))
      (returned A .packet (.empty .packet) do
        run A (.append .packet (.memory iv.val) 12)
        run A (.append .packet (.memory (evp.tag key iv output).val) 16)
        run A (.addAssign .packet .ciphertext))
      (fun _ => On (· = Function.update l .packet (some (iv.val ++ (evp.tag key iv output).val ++ output))))
      (fun e => On (E e)) := by
  have hiv := iv.property
  have htag := (evp.tag key iv output).property
  refine returned_triple (E := fun e l' => E e l ∧ ∃ v, l' = Function.update l .packet (some v))
    (empty_triple hnew) ?_ ?_ ?_
  · refine (append_triple (Function.update_self ..) (memory_bytes hiv) (by simp [Operand.owner])
      (by simp) ⟨hthrew, _, rfl⟩).seq ?_
    rw [Function.update_idem]
    refine (append_triple (Function.update_self ..) (memory_bytes htag) (by simp [Operand.owner])
      (by simp [hiv]) ⟨hthrew, _, rfl⟩).seq ?_
    rw [Function.update_idem]
    have hother : ∀ v, Function.update l .packet v .ciphertext = some output := by
      intro v
      rw [Function.update_of_ne (by decide), houtput]
    have hadd := addAssign_triple (A := A) (E := fun e l' => E e l ∧ ∃ v, l' = Function.update l .packet (some v))
      (l := Function.update l .packet (some ([] ++ iv.val ++ (evp.tag key iv output).val)))
      (by decide) (Function.update_self ..) (hother _) (by simp [hiv, htag]; omega) ⟨hthrew, _, rfl⟩
    rw [Function.update_idem, List.nil_append] at hadd
    exact hadd
  · rintro e l' ⟨-, v, rfl⟩
    rw [Function.update_self]
    rfl
  · rintro e l' ⟨he, v, rfl⟩
    rw [update_undone hnew]
    exact he

theorem aesEncrypt_triple (hinput : l input = some plaintext) (hkey : l keyBuf = some key)
    (hciphertext : l .ciphertext = none) (hpacket : l .packet = none) (hroom : plaintext.length ≤ 2 ^ 62) :
    Triple (On (· = l)) (aesEncrypt A evp iv input keyBuf)
      (fun _ => On fun l' => ∃ out, Fmxp.aesEncrypt evp iv plaintext key = .ok out ∧
        l' = Function.update l .packet (some out))
      (fun e => On fun l' => Fails .runtime (Fmxp.aesEncrypt evp iv plaintext key) e ∧ l' = l) := by
  unfold aesEncrypt
  refine (size_triple hkey).bind fun keySize => on_given fun hsize => ?_
  refine Triple.ite (fun hne => ?_) fun heq => ?_
  · have hlength : key.length ≠ 32 := by
      rw [← hsize]
      exact fun h => hne (UInt64.toNat_inj.mp h)
    refine Triple.throw ?_
    rintro s ⟨hinv, rfl⟩
    exact ⟨hinv, .inr ⟨_, aesEncrypt_key hlength, rfl⟩, rfl⟩
  have hlength : key.length = 32 := by
    rw [← hsize, Classical.not_not.mp heq]
    rfl
  refine (peek_triple hkey (by omega)).bind fun cells => on_given fun hcells => ?_
  obtain rfl : cells = key := by rw [hcells, List.drop_zero, ← hlength, List.take_length]
  -- In the scope of `ciphertext` the other buffers are as they were.
  have hother : ∀ {this : Name} {y : Option Bytes} (v : Option Bytes), this ≠ .ciphertext → l this = y →
      Function.update l .ciphertext v this = y := by
    rintro this y v hne rfl
    exact Function.update_of_ne hne ..
  have hin : input ≠ .ciphertext := by
    rintro rfl
    rw [hciphertext] at hinput
    cases hinput
  refine scope_triple
    (Q := fun _ l' => ∃ out, Fmxp.aesEncrypt evp iv plaintext cells = .ok out ∧
      ∃ v, l' = Function.update (Function.update l .ciphertext (some v)) .packet (some out))
    (E := fun e l' => Fails .runtime (Fmxp.aesEncrypt evp iv plaintext cells) e ∧
      ∃ v, l' = Function.update l .ciphertext (some v))
    (empty_triple hciphertext) ?_ ?_ ?_ ?_ ?_
  · refine (size_triple (hother _ hin hinput)).bind fun n => on_given fun hn => ?_
    refine (reserve_triple (Function.update_self ..) (by omega) ⟨.inl rfl, _, rfl⟩).seq ?_
    refine (resize_triple (Function.update_self ..) (by omega) ⟨.inl rfl, _, rfl⟩).seq ?_
    simp only [Function.update_idem]
    refine on_some fun z => on_given fun hz => ?_
    refine (peek_triple (hother _ hin hinput) (by omega)).bind fun bytes => on_given fun hbytes => ?_
    obtain rfl : bytes = plaintext := by rw [hbytes, List.drop_zero, hn, List.take_length]
    rw [hn]
    split
    · next hfails =>
      refine Triple.throw ?_
      rintro s ⟨hinv, hlists⟩
      refine ⟨hinv, .inr ⟨_, ?_, rfl⟩, _, hlists⟩
      simp only [Fmxp.aesEncrypt, hlength, hfails]
      rfl
    · next output houtput =>
      have hle := cInt_le bytes.length
      have hout := evp.encrypt_length hle houtput
      refine (poke_triple (Function.update_self ..) (by omega)).seq ?_
      rw [Function.update_idem]
      have hwritten : (UInt64.ofNat output.length).toNat = output.length := toNat_length (by omega)
      refine (resize_triple (Function.update_self ..) (by omega) ⟨.inl rfl, _, rfl⟩).seq ?_
      simp only [Function.update_idem]
      refine on_some fun z' => on_given fun hz' => ?_
      obtain rfl : z' = output := by
        have htake := hz'.2
        rw [List.take_of_length_le (by simp; omega), hz'.1, hwritten, List.take_left] at htake
        exact htake
      refine (packet_triple (hother _ (by decide) hpacket) (Function.update_self ..) (by omega)
        ⟨.inl rfl, _, rfl⟩).weaken (fun _ hs => hs) ?_ (fun _ _ hs => hs)
      rintro _ s ⟨hinv, hlists⟩
      refine ⟨hinv, _, ?_, _, hlists⟩
      simp only [Fmxp.aesEncrypt, hlength, houtput]
      rfl
  · rintro _ l' ⟨out, -, v, rfl⟩
    rw [Function.update_of_ne (by decide), Function.update_self]
    rfl
  · rintro _ l' ⟨out, hout, v, rfl⟩
    refine ⟨out, hout, ?_⟩
    rw [Function.update_comm (by decide), update_undone hciphertext]
  · rintro e l' ⟨-, v, rfl⟩
    rw [Function.update_self]
    rfl
  · rintro e l' ⟨he, v, rfl⟩
    exact ⟨he, update_undone hciphertext _⟩

/-! ### Encoding a frame -/

variable {frame : FrameHead} {d : Nat} {data : Bytes} {fidReplacement : UInt32}

/-- One more string at the end of the body. -/
theorem body_triple {x str : Bytes} {E : Failure → Lists Name → Prop} (hroom : x.length + str.length ≤ 2 ^ 63)
    (hthrew : ∀ v, E (.buffer .badAlloc) (Function.update l .body (some v))) :
    Triple (On (· = Function.update l .body (some x))) (run A (.addAssignString .body str))
      (fun _ => On (· = Function.update l .body (some (x ++ str)))) (fun e => On (E e)) := by
  have happended := addAssignString_triple (A := A) (l := Function.update l .body (some x)) (Function.update_self ..)
    hroom (hthrew x)
  rwa [Function.update_idem] at happended

theorem fillBody_triple {E : Failure → Lists Name → Prop} (hdata : l (.caller d) = some data)
    (hroom : frame.path.length + data.length ≤ 2 ^ 61)
    (hthrew : ∀ v, E (.buffer .badAlloc) (Function.update l .body (some v))) :
    Triple (On (· = Function.update l .body (some []))) (fillBody A frame d fidReplacement)
      (fun _ => On (· = Function.update l .body (some (frameBody (frame.frame data) fidReplacement))))
      (fun e => On (E e)) := by
  unfold fillBody
  refine (body_triple (by simp) hthrew).seq ?_
  refine (body_triple (by simp) hthrew).seq ?_
  refine (body_triple (by simp) hthrew).seq ?_
  refine (body_triple (by simp) hthrew).seq ?_
  refine (body_triple (by simp) hthrew).seq ?_
  refine (body_triple (by simp) hthrew).seq ?_
  refine (body_triple (by simp; omega) hthrew).seq ?_
  have hother : ∀ v, Function.update l .body v (.caller d) = some data := by
    intro v
    rw [Function.update_of_ne Name.noConfusion, hdata]
  let filled := [] ++ u32ToStr frame.rid ++ u32ToStr (if fidReplacement = 0 then frame.fid else fidReplacement) ++
    u64ToStr frame.ssid ++ u8ToStr frame.flags ++ u8ToStr frame.status ++
    u16ToStr (UInt16.ofNat frame.path.length) ++ frame.path
  have hadd : Triple (On (· = Function.update l .body (some filled))) (run A (.addAssign .body (.caller d)))
      (fun _ => On (· = Function.update (Function.update l .body (some filled)) .body (some (filled ++ data))))
      (fun e => On (E e)) :=
    addAssign_triple Name.noConfusion (Function.update_self ..) (hother _) (by simp [filled]; omega) (hthrew _)
  rw [Function.update_idem] at hadd
  exact hadd

/-- The body as it is sent. -/
def sealedBody (evp : Evp) (iv : Block 12) (encrypt : Bool) (body key : Bytes) : Except RuntimeError Bytes :=
  if encrypt then Fmxp.aesEncrypt evp iv body key else .ok body

theorem encodeFrame_sealed (evp : Evp) (iv : Block 12) (f : Frame) (encrypt : Bool) (key : Bytes) (r : UInt32) :
    Fmxp.encodeFrame evp iv f encrypt key r = (sealedBody evp iv encrypt (frameBody f r) key).map withHeader := by
  cases encrypt with
  | false => rfl
  | true =>
    simp only [Fmxp.encodeFrame, sealedBody, if_true]
    cases Fmxp.aesEncrypt evp iv (frameBody f r) key <;> rfl

theorem sealedBody_length {encrypt : Bool} {body out : Bytes} (h : sealedBody evp iv encrypt body key = .ok out) :
    out.length ≤ body.length + 28 := by
  cases encrypt with
  | false =>
    cases h
    exact Nat.le_add_right ..
  | true =>
    obtain ⟨-, -, hlength, -⟩ := aesEncrypt_ok h
    have hle := cInt_le body.length
    omega

theorem sealBody_triple {encrypt : Bool} {k : Nat} {body : Bytes} {E : Failure → Lists Name → Prop}
    (hkey : l (.caller k) = some key) (hciphertext : l .ciphertext = none) (hpacket : l .packet = none)
    (hroom : body.length ≤ 2 ^ 62)
    (hthrew : ∀ e v, Fails .runtime (sealedBody evp iv encrypt body key) e → E e (Function.update l .body (some v))) :
    Triple (On (· = Function.update l .body (some body))) (sealBody A evp iv encrypt k)
      (fun _ => On fun l' => ∃ out, sealedBody evp iv encrypt body key = .ok out ∧
        l' = Function.update l .body (some out))
      (fun e => On (E e)) := by
  unfold sealBody
  cases encrypt with
  | false =>
    refine Triple.pure ?_
    rintro s ⟨hinv, hlists⟩
    exact ⟨hinv, body, rfl, hlists⟩
  | true =>
    have hother : ∀ {this : Name} {y : Option Bytes}, this ≠ .body → l this = y →
        Function.update l .body (some body) this = y := by
      rintro this y hne rfl
      exact Function.update_of_ne hne ..
    refine ((aesEncrypt_triple (Function.update_self ..) (hother Name.noConfusion hkey)
      (hother (by decide) hciphertext) (hother (by decide) hpacket) hroom).weaken (fun _ hs => hs)
      (fun _ _ hs => hs) ?_).seq ?_
    · rintro e s ⟨hinv, hfails, hlists⟩
      exact ⟨hinv, hlists ▸ hthrew e body hfails⟩
    refine on_some fun out => on_given fun hout => ?_
    refine Triple.always (moveAssign_triple (E := fun _ _ => False) (x := body) (y := out) (by decide) ?_
      (Function.update_self ..)) ?_ ?_
    · rw [Function.update_of_ne (by decide), Function.update_self]
    · rintro _ s hs
      refine destroyed_spec hs ?_ ?_
      · rintro l' rfl
        rw [Function.update_self]
        rfl
      · rintro l' rfl
        refine ⟨out, hout, ?_⟩
        have hsame : Function.update l .packet none = l := by rw [← hpacket, Function.update_eq_self]
        have hne : Name.body ≠ .packet := by decide
        -- The packet is gone, and the body has been written over.
        rw [Function.update_idem, Function.update_comm hne, Function.update_idem, Function.update_comm hne,
          Function.update_idem, hsame]
    · rintro e s ⟨-, hfalse⟩
      cases hfalse

/-- The protocol's name goes through a temporary. -/
theorem literal_triple {E : Failure → Lists Name → Prop} (hliteral : l .literal = none)
    (hthrew : ∀ v, E (.buffer .badAlloc) (Function.update l .encoded (some v))) :
    Triple (On (· = Function.update l .encoded (some [])))
      (scope A .literal (.fromChars .literal (.memory (protocolTag ++ [0])) 4) (run A (.addAssign .encoded .literal)))
      (fun _ => On (· = Function.update l .encoded (some protocolTag))) (fun e => On (E e)) := by
  have hother : ∀ v, Function.update l .encoded v .literal = none := by
    intro v
    rw [Function.update_of_ne (by decide), hliteral]
  let m := Function.update (Function.update l .encoded (some [])) .literal (some protocolTag)
  have hliteral' : m .literal = some protocolTag := Function.update_self ..
  have hencoded : m .encoded = some [] := (Function.update_of_ne (by decide) ..).trans (Function.update_self ..)
  refine scope_triple (M := (· = m)) (Q := fun _ => (· = Function.update m .encoded (some protocolTag)))
    (E := fun e l' => e = .buffer .badAlloc ∧ l' = m) (fromChars_triple (hother _) rfl (by decide) (hthrew _))
    (addAssign_triple (by decide) hencoded hliteral' (by decide) ⟨rfl, rfl⟩) ?_ ?_ ?_ ?_
  · rintro _ _ rfl
    rw [Function.update_of_ne (by decide), hliteral']
    rfl
  · rintro _ _ rfl
    rw [Function.update_comm (by decide), update_undone (hother _), Function.update_idem]
  · rintro _ _ ⟨-, rfl⟩
    rw [hliteral']
    rfl
  · rintro _ _ ⟨rfl, rfl⟩
    rw [update_undone (hother _)]
    exact hthrew _

/-- The body, its size and its bytes, behind what has been encoded of the header. -/
theorem frameBody_triple {encrypt : Bool} {k : Nat} {header : Bytes} {F : Failure → Prop} (hunused : Unused l)
    (hdata : l (.caller d) = some data) (hkey : l (.caller k) = some key)
    (hroom : frame.path.length + data.length ≤ 2 ^ 61) (hheader : header.length ≤ 5) (hmemory : F (.buffer .badAlloc))
    (hfails : ∀ err, sealedBody evp iv encrypt (frameBody (frame.frame data) fidReplacement) key = .error err →
      F (.exn (.runtime err))) :
    Triple (On (· = Function.update l .encoded (some header)))
      (scope A .body (.empty .body) do
        fillBody A frame d fidReplacement
        sealBody A evp iv encrypt k
        let n ← size .body
        run A (.addAssignString .encoded (u32ToStr (UInt32.ofNat n.toNat)))
        run A (.addAssign .encoded .body))
      (fun _ => On fun l' => ∃ out,
        sealedBody evp iv encrypt (frameBody (frame.frame data) fidReplacement) key = .ok out ∧
          l' = Function.update l .encoded (some (header ++ u32ToStr (UInt32.ofNat out.length) ++ out)))
      (fun e => On fun l' => F e ∧ ∃ v, l' = Function.update l .encoded (some v)) := by
  let m := Function.update l .encoded (some header)
  have hm : ∀ {this : Name}, this ≠ .encoded → m this = l this := fun hne => Function.update_of_ne hne ..
  have hnew : ∀ {this : Name}, this ≠ .encoded → (∀ i, this ≠ .caller i) → m this = none :=
    fun hne hlocal => (hm hne).trans (hunused _ hlocal)
  have hsize : (frameBody (frame.frame data) fidReplacement).length ≤ 2 ^ 62 := by
    rw [frameBody_eq, List.length_append, length_bodyHeader, List.length_append]
    have hwidth : bodyHeaderSize = 20 := rfl
    show bodyHeaderSize + (frame.path.length + data.length) ≤ 2 ^ 62
    omega
  -- An exception leaves both buffers with something in them.
  let E : Failure → Lists Name → Prop := fun e l' =>
    F e ∧ ∃ v w, l' = Function.update (Function.update l .encoded (some v)) .body (some w)
  have hbody : m .body = none := hnew (by decide) fun _ => Name.noConfusion
  refine scope_triple (M := (· = Function.update m .body (some []))) (E := E)
    (Q := fun _ l' => ∃ out,
      sealedBody evp iv encrypt (frameBody (frame.frame data) fidReplacement) key = .ok out ∧
        l' = Function.update (Function.update l .encoded
          (some (header ++ u32ToStr (UInt32.ofNat out.length) ++ out))) .body (some out))
    (empty_triple hbody) ?_ ?_ ?_ ?_ ?_
  · refine (fillBody_triple ((hm Name.noConfusion).trans hdata) hroom fun w => ⟨hmemory, header, w, rfl⟩).seq ?_
    refine (sealBody_triple ((hm Name.noConfusion).trans hkey) (hnew (by decide) fun _ => Name.noConfusion)
      (hnew (by decide) fun _ => Name.noConfusion) hsize ?_).seq ?_
    · rintro e w (rfl | ⟨err, herr, rfl⟩)
      · exact ⟨hmemory, header, w, rfl⟩
      · exact ⟨hfails err herr, header, w, rfl⟩
    refine on_some fun out => on_given fun hout => ?_
    have hlength := sealedBody_length hout
    refine (size_triple (Function.update_self ..)).bind fun n => on_given fun hn => ?_
    have hencoded : Function.update m .body (some out) .encoded = some header :=
      (Function.update_of_ne (by decide) ..).trans (Function.update_self ..)
    have hcomm : ∀ v, Function.update (Function.update m .body (some out)) .encoded (some v) =
        Function.update (Function.update l .encoded (some v)) .body (some out) := by
      intro v
      rw [Function.update_comm (by decide), Function.update_idem]
    rw [hn]
    refine (addAssignString_triple hencoded (by simp; omega) ⟨hmemory, header, out, rfl⟩).seq ?_
    rw [hcomm]
    refine (addAssign_triple (x := header ++ u32ToStr (UInt32.ofNat out.length)) (y := out) (by decide) ?_
      (Function.update_self ..) (by simp; omega) ⟨hmemory, _, out, rfl⟩).weaken (fun _ hs => hs) ?_ (fun _ _ hs => hs)
    · rw [Function.update_of_ne (by decide), Function.update_self]
    · rintro _ s ⟨hinv, hlists⟩
      refine ⟨hinv, out, hout, hlists.trans ?_⟩
      rw [Function.update_comm (by decide), Function.update_idem]
  · rintro _ l' ⟨out, -, rfl⟩
    rw [Function.update_self]
    rfl
  · rintro _ l' ⟨out, hout, rfl⟩
    refine ⟨out, hout, update_undone ?_ _⟩
    rw [Function.update_of_ne (by decide)]
    exact hunused _ fun _ => Name.noConfusion
  · rintro e l' ⟨-, v, w, rfl⟩
    rw [Function.update_self]
    rfl
  · rintro e l' ⟨he, v, w, rfl⟩
    refine ⟨he, v, update_undone ?_ _⟩
    rw [Function.update_of_ne (by decide)]
    exact hunused _ fun _ => Name.noConfusion

/-- **`encodeFrame` on buffers**: it returns a buffer with the encoding of the frame, or throws what the encoder of
byte lists throws, or for want of memory; and nothing else has changed then. -/
theorem encodeFrame_triple {encrypt : Bool} {k : Nat} (hunused : Unused l)
    (hdata : l (.caller d) = some data) (hkey : l (.caller k) = some key)
    (hroom : frame.path.length + data.length ≤ 2 ^ 61) :
    Triple (On (· = l)) (encodeFrame A evp iv frame d encrypt k fidReplacement)
      (fun _ => On fun l' => ∃ raw, Fmxp.encodeFrame evp iv (frame.frame data) encrypt key fidReplacement = .ok raw ∧
        l' = Function.update l .encoded (some raw))
      (fun e => On fun l' =>
        Fails .runtime (Fmxp.encodeFrame evp iv (frame.frame data) encrypt key fidReplacement) e ∧ l' = l) := by
  have hencoded : l .encoded = none := hunused _ fun _ => Name.noConfusion
  let F := Fails .runtime (Fmxp.encodeFrame evp iv (frame.frame data) encrypt key fidReplacement)
  have hmemory : F (.buffer .badAlloc) := .inl rfl
  have hE : ∀ v : Bytes, F (.buffer .badAlloc) ∧
      ∃ w : Bytes, Function.update l .encoded (some v) = Function.update l .encoded (some w) :=
    fun v => ⟨hmemory, v, rfl⟩
  -- An exception leaves `encoded` with something in it, which goes.
  refine returned_triple (E := fun e l' => F e ∧ ∃ v, l' = Function.update l .encoded (some v))
    (empty_triple hencoded) ?_ ?_ ?_
  · refine (literal_triple (hunused _ fun _ => Name.noConfusion) hE).seq ?_
    refine (addAssignString_triple (Function.update_self ..) (by decide) (hE _)).seq ?_
    rw [Function.update_idem]
    refine (frameBody_triple hunused hdata hkey hroom (by decide) hmemory fun err herr => ?_).weaken (fun _ hs => hs) ?_
      (fun _ _ hs => hs)
    · exact .inr ⟨err, by rw [encodeFrame_sealed, herr]; rfl, rfl⟩
    · rintro _ s ⟨hinv, out, hout, hlists⟩
      exact ⟨hinv, withHeader out, by rw [encodeFrame_sealed, hout]; rfl, hlists⟩
  · rintro e l' ⟨-, v, rfl⟩
    rw [Function.update_self]
    rfl
  · rintro e l' ⟨he, v, rfl⟩
    exact ⟨he, update_undone hencoded _⟩

/-- Two buffers of a caller. -/
def givenOps (x y : Bytes) : List (Op Name × Option Thrown) :=
  [(.fromBytes (.caller 0) (.memory x) (UInt64.ofNat x.length), none),
    (.fromBytes (.caller 1) (.memory y) (UInt64.ofNat y.length), none)]

theorem givenOps_lists {x y : Bytes} (hx : x.length < 2 ^ 64) (hy : y.length < 2 ^ 64)
    (h : (execute (guarded (fun s a => Legal (lists s) a.1) (next lowestFree)) (givenOps x y) start).isSome) :
    ∃ s : State Name, Inv s ∧ Unused (lists s) ∧ lists s (.caller 0) = some x ∧ lists s (.caller 1) = some y := by
  obtain ⟨s, hs⟩ := Option.isSome_iff_exists.mp h
  obtain ⟨hinv, hrun⟩ := run_refines Inv.start (.of_execute (fun _ _ _ _ => guarded_step fun _ _ => next_step) hs)
  cases hrun with
  | cons h1 hrest =>
    cases hrest with
    | cons h2 hend =>
      cases hend
      obtain ⟨x', hx', _, rfl, h1⟩ := h1
      obtain ⟨y', hy', _, rfl, h2⟩ := h2
      rw [memory_bytes (UInt64.toNat_ofNat_of_lt' hx).symm] at hx'
      rw [memory_bytes (UInt64.toNat_ofNat_of_lt' hy).symm] at hy'
      cases hx'
      cases hy'
      refine ⟨s, hinv, fun this hthis => ?_, ?_, ?_⟩
      · rw [h2, h1, Function.update_of_ne (hthis 1), Function.update_of_ne (hthis 0)]
        rfl
      · rw [h2, h1, Function.update_of_ne (by decide), Function.update_self]
      · rw [h2, Function.update_self]

end Fmxp.Buffers
