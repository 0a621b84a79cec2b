import MarsNwe.Bindery.PropertyIds
import MarsNwe.Lib.Machine
import MarsNwe.Login.ChangePassword

/-! # The password history

`OLD_PASSWORDS` holds the hashes of eight passwords, the most recent first. Where
`LOGIN_CONTROL` asks for it, none of them is accepted again.
-/

namespace MarsNwe

open KeyedFile

variable {F : Type → Type → Type} [KeyedFile F]

/-! ## The segment -/

/-- The hashes in a segment of `OLD_PASSWORDS`. -/
def oldHashes (segm : Value) : List (ByteBuf 16) :=
  (List.range 8).map fun segment => fieldAt segm.bytes (segment * 16) 16

theorem oldHashes_any (segm : Value) (p : ByteBuf 16) :
    ((List.range 8).any fun segment => fieldAt segm.bytes (segment * 16) 16 = p) = true ↔
      p ∈ oldHashes segm := by
  rw [List.any_eq_true, oldHashes, List.mem_map]
  simp only [decide_eq_true_eq]

/-- A new hash at the start moves the others, and the eighth one out. -/
theorem oldHashes_shift (segm : Value) (p : ByteBuf 16) :
    oldHashes (.ofList 128 (p.bytes ++ segm.bytes.take (128 - 16))) =
      p :: (oldHashes segm).take 7 := by
  have hlen : (p.bytes ++ segm.bytes.take (128 - 16)).length = 128 := by
    rw [List.length_append, List.length_take, p.length_eq, segm.length_eq]
    rfl
  rw [oldHashes, oldHashes, ByteBuf.bytes_ofList hlen, ← List.map_take]
  have htake : (List.range 8).take 7 = List.range 7 := rfl
  rw [htake, List.range_succ_eq_map, List.map_cons, List.map_map]
  congr 1
  · rw [fieldAt, Nat.zero_mul, List.drop_zero, List.take_left' p.length_eq, ByteBuf.ofList_bytes]
  · apply List.map_congr_left
    intro k hk
    rw [List.mem_range] at hk
    change fieldAt _ ((k + 1) * 16) 16 = _
    unfold fieldAt
    congr 1
    have hdrop : (p.bytes ++ segm.bytes.take (128 - 16)).drop ((k + 1) * 16) =
        (segm.bytes.take (128 - 16)).drop (k * 16) := by
      rw [List.drop_append, List.drop_of_length_le (by rw [p.length_eq]; omega),
        List.nil_append, p.length_eq]
      congr 1
      omega
    rw [hdrop, List.drop_take, List.take_take]
    congr 1
    omega

/-! ## Restrictions -/

theorem byteField_toBytes (lc : LoginControl) :
    byteField (ByteBuf.ofList 128 lc.toBytes).bytes 62 = lc.restrictionFlags := by
  have hlen : lc.toBytes.length = 86 := by
    simp only [LoginControl.toBytes, List.length_append, ByteBuf.length_eq, List.length_cons,
      List.length_nil]
  have hpadded : (ByteBuf.ofList 128 lc.toBytes).bytes = lc.toBytes ++ List.replicate 42 0 := by
    change lc.toBytes.take 128 ++ List.replicate (128 - lc.toBytes.length) 0 = _
    rw [hlen, List.take_of_length_le (by rw [hlen]; omega)]
  rw [hpadded, byteField, List.getD_eq_getElem?_getD, List.getElem?_append_left (by omega),
    LoginControl.toBytes]
  simp

/-- `LOGIN_CONTROL` of an object asks for new passwords. -/
def RequiresUnique (b : Bindery F) (objId : UInt32) : Prop :=
  ∃ lc, HasValue b objId pnLoginControl lc ∧ byteField lc.bytes 62 &&& 2 ≠ 0

section

variable {b : Bindery F} (huniq : PropNamesUnique b) {objId : UInt32}

include huniq

theorem nwGetLoginControl_of_hasValue {lc : Value} (hlc : HasValue b objId pnLoginControl lc) :
    nwGetLoginControl .internal b objId = some (.ofBytes lc.bytes) := by
  obtain ⟨more, flags, hget⟩ :=
    (nwGetPropValByObjId_internal rfl huniq (c := .internal) (by decide) lc).mpr hlc
  rw [nwGetLoginControl, hget]

theorem requiresUniquePasswd_of_requires (h : RequiresUnique b objId) :
    requiresUniquePasswd .internal b objId = true := by
  obtain ⟨lc, hlc, hbit⟩ := h
  rw [requiresUniquePasswd, nwGetLoginControl_of_hasValue huniq hlc]
  exact bne_iff_ne.mpr hbit

/-- Renewing the expiration date changes no restriction. -/
theorem RequiresUnique.renewExpiration (h : RequiresUnique b objId) (host : Host) (now : Int) :
    RequiresUnique (renewExpiration host now .internal b objId) objId := by
  obtain ⟨lc, hlc, hbit⟩ := h
  unfold MarsNwe.renewExpiration
  rw [nwGetLoginControl_of_hasValue huniq hlc]
  dsimp only
  split
  next =>
    refine ⟨_, hasValue_newObjProp rfl b objId 0 ⟨pnLoginControl, 0, 0x32⟩
      (List.cons_ne_nil _ _), ?_⟩
    rw [byteField_toBytes]
    exact hbit
  next => exact ⟨lc, hlc, hbit⟩

end

/-! ## Room for the password -/

/-- The property `PASSWORD` can be written without taking the place of another
one that the history needs: an object with all ids in use gets it under the id 0. -/
def RoomForPassword (b : Bindery F) (objId : UInt32) : Prop :=
  ¬ (NewPropName b objId pnPassword ∧ PropIdsFull b objId ∧
    ∃ d, fetch b.nwprop (objId, 0) = some d ∧ (d.name = pnOldPasswords ∨ d.name = pnLoginControl))

/-- Other property names, and so the ids in use, stay when a value is written to a
property that exists. -/
theorem RoomForPassword.of_names {b b' : Bindery F} {objId : UInt32}
    (h : RoomForPassword b objId)
    (hnames : ∀ i, (fetch b'.nwprop (objId, i)).map PropData.name =
      (fetch b.nwprop (objId, i)).map PropData.name) : RoomForPassword b' objId := by
  have hsome : ∀ {i d}, fetch b'.nwprop (objId, i) = some d →
      ∃ d', fetch b.nwprop (objId, i) = some d' ∧ d'.name = d.name := by
    intro i d hfetch
    have hname := hnames i
    rw [hfetch] at hname
    exact Option.map_eq_some_iff.mp hname.symm
  rintro ⟨hnew, hfull, d, hfetch, hname⟩
  apply h
  refine ⟨fun i d hfetch hname => ?_, fun k hk => ?_, ?_⟩
  · have hname' := hnames i
    rw [hfetch] at hname'
    obtain ⟨d', hfetch', heq⟩ := Option.map_eq_some_iff.mp hname'
    exact hnew i d' hfetch' (heq.trans hname)
  · obtain ⟨d', hfetch'⟩ := Option.isSome_iff_exists.mp (hfull k hk)
    obtain ⟨d'', hfetch'', -⟩ := hsome hfetch'
    rw [hfetch'']
    rfl
  · obtain ⟨d', hfetch', heq⟩ := hsome hfetch
    exact ⟨d', hfetch', heq ▸ hname⟩

/-- The id that `PASSWORD` gets is not that of another property the history needs. -/
theorem RoomForPassword.id_ne {b : Bindery F} {objId : UInt32} (h : RoomForPassword b objId)
    {d e : PropData} (hd : d.name = pnPassword)
    (hfetch : fetch b.nwprop (objId, (nwCreateObjProp b objId d).2.1) = some e)
    (hother : e.name ≠ d.name) : e.name ≠ pnOldPasswords ∧ e.name ≠ pnLoginControl := by
  rcases nwCreateObjProp_id b objId d with ⟨d', hd', hname⟩ | ⟨hnew, hfree⟩
  · rw [hfetch] at hd'
    exact absurd ((Option.some.inj hd').symm ▸ hname) hother
  · rw [hd] at hnew
    have hid := nwCreateObjProp_new (d := d) (hd ▸ hnew)
    dsimp only at hid
    rw [hid] at hfetch
    dsimp only at hfetch
    rcases freePropId_cases ((b.propsOf objId).map NetProp.id) with ⟨-, hunused⟩ | ⟨hzero, hfull⟩
    · rw [mem_propIds, hfetch] at hunused
      exact absurd rfl hunused
    · rw [hzero] at hfetch
      refine not_or.mp fun hname => h ⟨hnew, fun k hk => ?_, e, hfetch, hname⟩
      exact mem_propIds.mp (hfull k hk)

/-! ## One change -/

/-- What the history is at some time: the hashes that it remembers are the latest
eight of all that have been accepted. -/
structure Remembers (b : Bindery F) (objId : UInt32) (accepted : List (ByteBuf 16)) : Prop where
  uniq : PropNamesUnique b
  hashes : ∃ segm, HasValue b objId pnOldPasswords segm ∧ oldHashes segm = accepted.take 8
  restriction : RequiresUnique b objId
  room : RoomForPassword b objId

namespace Remembers

variable {b : Bindery F} {objId : UInt32} {accepted : List (ByteBuf 16)} {p : ByteBuf 16}

theorem bytes_ne_nil (p : ByteBuf 16) : p.bytes ≠ [] := by
  intro hnil
  have hlen := p.length_eq
  rw [hnil] at hlen
  contradiction

/-- The record of an old password. -/
theorem update (h : Remembers b objId accepted) (p : ByteBuf 16) :
    if p ∈ accepted.take 8 then nwUpdateOldpasswd .internal b objId p = (1, b)
    else ∃ b', nwUpdateOldpasswd .internal b objId p = (0, b') ∧
      Remembers b' objId (p :: accepted) := by
  obtain ⟨segm, hsegm, hhashes⟩ := h.hashes
  obtain ⟨more, flags, hget⟩ :=
    (nwGetPropValByObjId_internal rfl h.uniq (c := .internal) (by decide) segm).mpr hsegm
  have hbytes : p.bytes ++ segm.bytes.take (128 - 16) ≠ [] := by simp [bytes_ne_nil p]
  unfold nwUpdateOldpasswd
  rw [hget]
  dsimp only
  rw [if_congr (oldHashes_any segm p) rfl rfl, hhashes]
  split
  next => rfl
  next =>
    refine ⟨_, rfl, ?_⟩
    constructor
    case uniq => exact PropNamesUnique.newObjProp rfl objId 0 _ hbytes h.uniq
    case hashes =>
      refine ⟨_, hasValue_newObjProp rfl b objId 0 ⟨pnOldPasswords, 0, 0x32⟩ hbytes, ?_⟩
      rw [oldHashes_shift, hhashes, List.take_take]
      rfl
    case restriction =>
      obtain ⟨lc, hlc, hbit⟩ := h.restriction
      refine ⟨lc, ?_, hbit⟩
      rw [hasValue_newObjProp_other rfl b objId 0 ⟨pnOldPasswords, 0, 0x32⟩ hbytes hsegm
        fun heq => absurd (Prod.mk.inj heq).2 (by decide)]
      exact hlc
    case room =>
      apply h.room.of_names
      intro i
      rw [(nwNewObjProp_internal rfl b objId 0 ⟨pnOldPasswords, 0, 0x32⟩ hbytes).1,
        nwCreateObjProp_fetch]
      split
      next hid =>
        rw [(Prod.mk.inj hid).2]
        rcases nwCreateObjProp_id b objId ⟨pnOldPasswords, 0, 0x32⟩ with ⟨d, hd, hname⟩ | ⟨hnew, -⟩
        · rw [hd, Option.map_some, Option.map_some, hname]
        · obtain ⟨j, d, hd, hname, -⟩ := hsegm
          exact absurd hname (hnew j d hd)
      next => rfl

/-- A change is refused, and nothing changes, or the hash is the password and the
latest one that is remembered. -/
theorem step (h : Remembers b objId accepted) (host : Host) (now : Int)
    (hp : byteField p.bytes 0 ≠ 0) :
    if p ∈ accepted.take 8 then nwSetEnpasswd host now .internal b objId (some p) false = (-0xd7, b)
    else ∃ b', nwSetEnpasswd host now .internal b objId (some p) false = (0, b') ∧
      HasValue b' objId pnPassword (.ofList 128 p.bytes) ∧ Remembers b' objId (p :: accepted) := by
  have hupdate := h.update p
  have hset : nwSetEnpasswd host now .internal b objId (some p) false =
      if requiresUniquePasswd .internal (nwUpdateOldpasswd .internal b objId p).2 objId &&
          (nwUpdateOldpasswd .internal b objId p).1 != 0 then
        (-0xd7, (nwUpdateOldpasswd .internal b objId p).2)
      else (0, renewExpiration host now .internal (nwNewObjProp .internal
        (nwUpdateOldpasswd .internal b objId p).2 objId 0 ⟨pnPassword, 0, 0x44⟩ p.bytes true)
        objId) := by
    unfold nwSetEnpasswd
    rw [Option.filter_some_pos (by simpa using hp)]
    rfl
  split at hupdate
  next hmem =>
    rw [if_pos hmem, hset, hupdate, requiresUniquePasswd_of_requires h.uniq h.restriction]
    rfl
  next hmem =>
    obtain ⟨b₁, heq, h₁⟩ := hupdate
    rw [if_neg hmem]
    rw [heq] at hset
    have hzero : (requiresUniquePasswd .internal b₁ objId && (0 : Int) != 0) = false := by simp
    dsimp only at hset
    rw [hzero, if_neg Bool.false_ne_true] at hset
    refine ⟨_, hset, ?_⟩
    obtain ⟨huniq', hpassword⟩ := nwSetEnpasswd_stored rfl host now h.uniq hp hset
    have huniq₂ := PropNamesUnique.newObjProp (c := .internal) rfl objId 0 ⟨pnPassword, 0, 0x44⟩
      (bytes_ne_nil p) h₁.uniq
    have hkeep : ∀ {name v}, name ≠ pnPassword → (name = pnOldPasswords ∨ name = pnLoginControl) →
        HasValue b₁ objId name v → HasValue (nwNewObjProp .internal b₁ objId 0
          ⟨pnPassword, 0, 0x44⟩ p.bytes true) objId name v := by
      intro name v hne hneeded
      apply hasValue_newObjProp_of_ne rfl b₁ objId 0 ⟨pnPassword, 0, 0x44⟩ (bytes_ne_nil p)
      · exact fun heq => hne (Prod.mk.inj heq).2
      · intro e hfetch hother
        obtain ⟨hold, hcontrol⟩ := h₁.room.id_ne rfl hfetch hother
        rcases hneeded with rfl | rfl
        · exact hold
        · exact hcontrol
    refine ⟨hpassword, huniq', ?_, ?_, ?_⟩
    · obtain ⟨segm, hsegm, hhashes⟩ := h₁.hashes
      refine ⟨segm, ?_, hhashes⟩
      rw [(renewExpiration_internal rfl host now huniq₂ objId).2 _ _ (by decide)]
      exact hkeep (by decide) (.inl rfl) hsegm
    · obtain ⟨lc, hlc, hbit⟩ := h₁.restriction
      exact RequiresUnique.renewExpiration huniq₂ ⟨lc, hkeep (by decide) (.inr rfl) hlc, hbit⟩
        host now
    · rintro ⟨hnew, -⟩
      obtain ⟨i, d, hfetch, hname, -⟩ := hpassword
      exact hnew i d hfetch hname

end Remembers

/-! ## Changes one after the other -/

/-- A change of the password of an object: the host, its time and the hash. -/
structure EnpasswdCall where
  host : Host
  now : Int
  passwd : ByteBuf 16

/-- The calls of `nw_set_enpasswd` for an object. -/
def enpasswdMachine (objId : UInt32) : Machine (Bindery F) EnpasswdCall Int where
  step b e := nwSetEnpasswd e.host e.now .internal b objId (some e.passwd) false

/-- The hashes of the calls that were accepted, the latest one first. -/
def acceptedHashes (objId : UInt32) (b : Bindery F) (es : List EnpasswdCall) :
    List (ByteBuf 16) :=
  (((es.zip ((enpasswdMachine objId).answers b es)).filter fun ea => ea.2 ≠ -0xd7).map
    fun ea => ea.1.passwd).reverse

theorem acceptedHashes_cons (objId : UInt32) (b : Bindery F) (e : EnpasswdCall)
    (es : List EnpasswdCall) :
    let out := nwSetEnpasswd e.host e.now .internal b objId (some e.passwd) false
    acceptedHashes objId b (e :: es) =
      acceptedHashes objId out.2 es ++ if out.1 = -0xd7 then [] else [e.passwd] := by
  intro out
  have hanswers : (enpasswdMachine objId).answers b (e :: es) =
      out.1 :: (enpasswdMachine objId).answers out.2 es := rfl
  rw [acceptedHashes, acceptedHashes, hanswers, List.zip_cons_cons, List.filter_cons]
  by_cases hrefused : out.1 = -0xd7
  · rw [if_pos hrefused, if_neg (by simp [hrefused]), List.append_nil]
  · rw [if_neg hrefused, if_pos (by simpa using hrefused), List.map_cons, List.reverse_cons]

/-- After any calls, the history is that of the accepted ones. -/
theorem Remembers.exec {b : Bindery F} {objId : UInt32} {accepted : List (ByteBuf 16)}
    (h : Remembers b objId accepted) {es : List EnpasswdCall}
    (hes : ∀ e ∈ es, byteField e.passwd.bytes 0 ≠ 0) :
    Remembers ((enpasswdMachine objId).exec b es) objId (acceptedHashes objId b es ++ accepted) := by
  induction es generalizing b accepted with
  | nil => exact h
  | cons e es ih =>
      obtain ⟨he, hes⟩ := List.forall_mem_cons.mp hes
      have hstep := h.step e.host e.now he
      rw [acceptedHashes_cons, Machine.exec_cons]
      change Remembers ((enpasswdMachine objId).exec (nwSetEnpasswd e.host e.now .internal b objId
        (some e.passwd) false).2 es) objId _
      split at hstep
      next =>
        rw [hstep, if_pos rfl, List.append_nil]
        exact ih h hes
      next =>
        obtain ⟨b', hset, -, h'⟩ := hstep
        rw [hset, if_neg (show ¬(0 : Int) = -0xd7 by decide), List.append_assoc]
        exact ih h' hes

/-- An object with a history, of which new passwords are asked for: after any
changes, one more is refused exactly when its hash is among the latest eight that
have been accepted; then nothing changes, and else the hash is the password and
the latest one. -/
theorem nwSetEnpasswd_history {b : Bindery F} (huniq : PropNamesUnique b) {objId : UInt32}
    {segm : Value} (hsegm : HasValue b objId pnOldPasswords segm)
    (hrestriction : RequiresUnique b objId) (hroom : RoomForPassword b objId)
    (es : List EnpasswdCall) (e : EnpasswdCall)
    (hes : ∀ e' ∈ es ++ [e], byteField e'.passwd.bytes 0 ≠ 0) :
    let b₁ := (enpasswdMachine objId).exec b es
    let accepted := acceptedHashes objId b es ++ oldHashes segm
    let out := nwSetEnpasswd e.host e.now .internal b₁ objId (some e.passwd) false
    (out.1 = -0xd7 ↔ e.passwd ∈ accepted.take 8) ∧ (out.1 = -0xd7 → out.2 = b₁) ∧
      (out.1 ≠ -0xd7 → out.1 = 0 ∧ HasValue out.2 objId pnPassword (.ofList 128 e.passwd.bytes) ∧
        ∃ segm', HasValue out.2 objId pnOldPasswords segm' ∧
          oldHashes segm' = (e.passwd :: accepted).take 8) := by
  intro b₁ accepted out
  have hstart : Remembers b objId (oldHashes segm) :=
    ⟨huniq, ⟨segm, hsegm, (List.take_of_length_le (by simp [oldHashes])).symm⟩, hrestriction, hroom⟩
  have hrun : Remembers b₁ objId accepted :=
    hstart.exec fun e' he' => hes e' (List.mem_append_left _ he')
  have hstep := hrun.step e.host e.now (hes e (by simp))
  split at hstep
  next hmem =>
    have hout : out = (-0xd7, b₁) := hstep
    rw [hout]
    exact ⟨iff_of_true rfl hmem, fun _ => rfl, fun hne => absurd rfl hne⟩
  next hmem =>
    obtain ⟨b', hset, hpassword, hremembers⟩ := hstep
    have hout : out = (0, b') := hset
    rw [hout]
    have hzero : ¬(0 : Int) = -0xd7 := by decide
    exact ⟨iff_of_false hzero hmem, fun hrefused => absurd hrefused hzero,
      fun _ => ⟨rfl, hpassword, hremembers.hashes⟩⟩

/-- ANN gets restrictions that ask for new passwords, and the property
`OLD_PASSWORDS`, which has no value yet. -/
def annRestricted : List (Caller × BindRequest) :=
  annRun ++
  [(.supervisor, .createProp 1 (objName ['A', 'N', 'N']) ⟨pnLoginControl, 0, 0x32⟩),
    (.supervisor, .writePropVal 1 (objName ['A', 'N', 'N']) 1 0xff pnLoginControl
      (.ofList 128 (List.replicate 62 0 ++ [2]))),
    (.supervisor, .createProp 1 (objName ['A', 'N', 'N']) ⟨pnOldPasswords, 0, 0x32⟩)]

/-- The value of `OLD_PASSWORDS` is written, too. -/
def annHistory : List (Caller × BindRequest) :=
  annRestricted ++
  [(.supervisor, .writePropVal 1 (objName ['A', 'N', 'N']) 1 0xff pnOldPasswords (.zero 128))]

/-- The same hash. -/
def sameHash : EnpasswdCall := ⟨bareHost, 0, .ofList 16 [1]⟩

theorem requiresUnique_annRestricted :
    RequiresUnique (binderyMachine.exec (Bindery.empty : Bindery ListFile) annRestricted) 0x10002 :=
  ⟨.ofList 128 (List.replicate 62 0 ++ [2]),
    ⟨1, ⟨pnLoginControl, 0, 0x32⟩, by decide +kernel, rfl, by decide +kernel⟩, by decide +kernel⟩

/-- With a history the hash is refused when it comes again. -/
theorem nwSetEnpasswd_history_again :
    let b := binderyMachine.exec (Bindery.empty : Bindery ListFile) annHistory
    let b₁ := (enpasswdMachine 0x10002).exec b [sameHash]
    let accepted := acceptedHashes 0x10002 b [sameHash] ++ oldHashes (.zero 128)
    let out := nwSetEnpasswd bareHost 0 .internal b₁ 0x10002 (some sameHash.passwd) false
    (out.1 = -0xd7 ↔ sameHash.passwd ∈ accepted.take 8) ∧ (out.1 = -0xd7 → out.2 = b₁) ∧
      (out.1 ≠ -0xd7 → out.1 = 0 ∧
        HasValue out.2 0x10002 pnPassword (.ofList 128 sameHash.passwd.bytes) ∧
        ∃ segm', HasValue out.2 0x10002 pnOldPasswords segm' ∧
          oldHashes segm' = (sameHash.passwd :: accepted).take 8) := by
  have hsegm : HasValue (binderyMachine.exec (Bindery.empty : Bindery ListFile) annHistory) 0x10002
      pnOldPasswords (.zero 128) :=
    ⟨2, ⟨pnOldPasswords, 0, 0x32⟩, by decide +kernel, rfl, by decide +kernel⟩
  have hrestriction : RequiresUnique (binderyMachine.exec (Bindery.empty : Bindery ListFile)
      annHistory) 0x10002 :=
    ⟨.ofList 128 (List.replicate 62 0 ++ [2]),
      ⟨1, ⟨pnLoginControl, 0, 0x32⟩, by decide +kernel, rfl, by decide +kernel⟩, by decide +kernel⟩
  have hroom : RoomForPassword (binderyMachine.exec (Bindery.empty : Bindery ListFile) annHistory)
      0x10002 :=
    fun hfull => absurd (hfull.2.1 200 (by decide)) (by decide +kernel)
  exact nwSetEnpasswd_history (propNamesUnique_exec annHistory) hsegm hrestriction hroom
    [sameHash] sameHash (by decide)

/-- Without a value of `OLD_PASSWORDS` the hash is accepted again and again. -/
theorem nwSetEnpasswd_accepts_again : ¬ ∀ (b : Bindery ListFile) (objId : UInt32)
    (es : List EnpasswdCall) (e : EnpasswdCall),
    b = binderyMachine.exec Bindery.empty annRestricted →
    (∃ i d, fetch b.nwprop (objId, i) = some d ∧ d.name = pnOldPasswords) →
    RequiresUnique b objId → (∀ e' ∈ es ++ [e], byteField e'.passwd.bytes 0 ≠ 0) →
    ((nwSetEnpasswd e.host e.now .internal ((enpasswdMachine objId).exec b es) objId
      (some e.passwd) false).1 = -0xd7 ↔ e.passwd ∈ (acceptedHashes objId b es).take 8) := by
  intro hall
  have hagain := (hall _ 0x10002 [sameHash] sameHash rfl
    ⟨2, ⟨pnOldPasswords, 0, 0x32⟩, by decide +kernel, rfl⟩ requiresUnique_annRestricted
    (by decide)).mpr (by decide +kernel)
  exact absurd hagain (by decide +kernel)

end MarsNwe
