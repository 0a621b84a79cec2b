import Mathlib.Data.Fintype.EquivFin
import Mathlib.Data.List.GetD
import Mathlib.Logic.Function.Iterate
import MarsNwe.Lib.Nibbles
import MarsNwe.Login.Passwords

/-! # Changing a password by its hash

A client encrypts the 16 bytes of the new hash with those of the old one, eight
bytes at a time. `nw_keychange_passwd` decrypts them and stores the result.
-/

namespace MarsNwe

variable {F : Type → Type → Type} [KeyedFile F]

/-! ## The cipher of nwcrypt.c -/

/-- `newshuffle`: 16 rows of substitutions and the row that permutes nibbles. -/
def newshuffle : List UInt8 :=
  [0x0f, 0x08, 0x05, 0x07, 0x0c, 0x02, 0x0e, 0x09, 0x00, 0x01, 0x06, 0x0d, 0x03, 0x04, 0x0b, 0x0a,
   0x02, 0x0c, 0x0e, 0x06, 0x0f, 0x00, 0x01, 0x08, 0x0d, 0x03, 0x0a, 0x04, 0x09, 0x0b, 0x05, 0x07,
   0x05, 0x02, 0x09, 0x0f, 0x0c, 0x04, 0x0d, 0x00, 0x0e, 0x0a, 0x06, 0x08, 0x0b, 0x01, 0x03, 0x07,
   0x0f, 0x0d, 0x02, 0x06, 0x07, 0x08, 0x05, 0x09, 0x00, 0x04, 0x0c, 0x03, 0x01, 0x0a, 0x0b, 0x0e,
   0x05, 0x0e, 0x02, 0x0b, 0x0d, 0x0a, 0x07, 0x00, 0x08, 0x06, 0x04, 0x01, 0x0f, 0x0c, 0x03, 0x09,
   0x08, 0x02, 0x0f, 0x0a, 0x05, 0x09, 0x06, 0x0c, 0x00, 0x0b, 0x01, 0x0d, 0x07, 0x03, 0x04, 0x0e,
   0x0e, 0x08, 0x00, 0x09, 0x04, 0x0b, 0x02, 0x07, 0x0c, 0x03, 0x0a, 0x05, 0x0d, 0x01, 0x06, 0x0f,
   0x01, 0x04, 0x08, 0x0a, 0x0d, 0x0b, 0x07, 0x0e, 0x05, 0x0f, 0x03, 0x09, 0x00, 0x02, 0x06, 0x0c,
   0x05, 0x03, 0x0c, 0x08, 0x0b, 0x02, 0x0e, 0x0a, 0x04, 0x01, 0x0d, 0x00, 0x06, 0x07, 0x0f, 0x09,
   0x06, 0x00, 0x0b, 0x0e, 0x0d, 0x04, 0x0c, 0x0f, 0x07, 0x02, 0x08, 0x0a, 0x01, 0x05, 0x03, 0x09,
   0x0b, 0x05, 0x0a, 0x0e, 0x0f, 0x01, 0x0c, 0x00, 0x06, 0x04, 0x02, 0x09, 0x03, 0x0d, 0x07, 0x08,
   0x07, 0x02, 0x0a, 0x00, 0x0e, 0x08, 0x0f, 0x04, 0x0c, 0x0b, 0x09, 0x01, 0x05, 0x0d, 0x03, 0x06,
   0x07, 0x04, 0x0f, 0x09, 0x05, 0x01, 0x0c, 0x0b, 0x00, 0x03, 0x08, 0x0e, 0x02, 0x0a, 0x06, 0x0d,
   0x09, 0x04, 0x08, 0x00, 0x0a, 0x03, 0x01, 0x0c, 0x05, 0x0f, 0x07, 0x02, 0x0b, 0x0e, 0x06, 0x0d,
   0x09, 0x05, 0x04, 0x07, 0x0e, 0x08, 0x03, 0x01, 0x0d, 0x0b, 0x0c, 0x02, 0x00, 0x0f, 0x06, 0x0a,
   0x09, 0x0a, 0x0b, 0x0d, 0x05, 0x03, 0x0f, 0x00, 0x01, 0x0c, 0x08, 0x07, 0x06, 0x04, 0x0e, 0x02,
   0x03, 0x0e, 0x0f, 0x02, 0x0d, 0x0c, 0x04, 0x05, 0x09, 0x06, 0x00, 0x01, 0x0b, 0x07, 0x0a, 0x08]

/-- `invshuffle`, as `nw_decrypt_newpass` fills it in. -/
def invshuffle : List UInt8 :=
  (List.range (256 + 16)).foldl (fun inv k =>
    inv.set (k / 16 * 16 + (byteAt newshuffle k).toNat) (UInt8.ofNat (k % 16)))
    (List.replicate (256 + 16) 0)

/-- Where the nibble with a number goes. -/
def nibblePlace (j : Nat) : Nat := (byteAt newshuffle (j + 0x100)).toNat

/-- `newpassencrypt` turns the key by a nibble at the end of a round. -/
def rotateUp (old : ByteBuf 8) : ByteBuf 8 :=
  .ofList 8 ((List.range 8).map fun j =>
    highNibble (byteAt old.bytes ((j + 7) % 8)) ||| byteAt old.bytes j <<< 4)

/-- `nw_decrypt_newpass` turns the key the other way before it uses it. -/
def rotateDown (oldpwd : ByteBuf 8) : ByteBuf 8 :=
  .ofList 8 ((List.range 8).map fun j =>
    byteAt oldpwd.bytes ((j + 1) % 8) <<< 4 ||| highNibble (byteAt oldpwd.bytes j))

/-- The key and the substitutions of a round of `newpassencrypt`. -/
def substitute (old copy : ByteBuf 8) : ByteBuf 8 :=
  .ofList 8 ((List.range 8).map fun di =>
    let x := byteAt copy.bytes di ^^^ byteAt old.bytes di
    joinNibbles (byteAt newshuffle ((lowNibble x).toNat + 0x20 * di))
      (byteAt newshuffle ((highNibble x).toNat + 0x20 * di + 0x10)))

/-- The substitutions and the key of a round of `nw_decrypt_newpass`. -/
def unsubstitute (oldpwd copy : ByteBuf 8) : ByteBuf 8 :=
  .ofList 8 ((List.range 8).map fun j =>
    joinNibbles (byteAt invshuffle ((lowNibble (byteAt copy.bytes j)).toNat + j * 32))
      (byteAt invshuffle ((highNibble (byteAt copy.bytes j)).toNat + j * 32 + 16)) ^^^
        byteAt oldpwd.bytes j)

/-- The nibbles are collected from their places. -/
def gatherNibbles (copy : ByteBuf 8) : ByteBuf 8 :=
  (List.range 16).foldl (fun out di => out.orNibble di (copy.nibble (nibblePlace di))) (.zero 8)

/-- The nibbles go back to their places. -/
def scatterNibbles (newpwd : ByteBuf 8) : ByteBuf 8 :=
  (List.range 16).foldl (fun copy j => copy.orNibble (nibblePlace j) (newpwd.nibble j)) (.zero 8)

/-- A round of `newpassencrypt`: the key and the block after it. -/
def newpassencryptRound (w : ByteBuf 8 × ByteBuf 8) : ByteBuf 8 × ByteBuf 8 :=
  (rotateUp w.1, gatherNibbles (substitute w.1 w.2))

/-- A round of `nw_decrypt_newpass`. -/
def decryptNewpassRound (w : ByteBuf 8 × ByteBuf 8) : ByteBuf 8 × ByteBuf 8 :=
  let oldpwd := rotateDown w.1
  (oldpwd, unsubstitute oldpwd (scatterNibbles w.2))

/-- `newpassencrypt`: the key buffer and `out` at its end. -/
def newpassencrypt (old new : ByteBuf 8) : ByteBuf 8 × ByteBuf 8 := newpassencryptRound^[16] (old, new)

/-- `nw_decrypt_newpass`: the key buffer and `undecr` at its end. -/
def nwDecryptNewpass (oldpwd newpwd : ByteBuf 8) : ByteBuf 8 × ByteBuf 8 :=
  decryptNewpassRound^[16] (oldpwd, newpwd)

/-! ## The table -/

/-- What the row with a number makes of a nibble. -/
def shuffled (k v : Nat) : Nat := (byteAt newshuffle (16 * k + v)).toNat

theorem newshuffle_rows : newshuffle.length = 272 ∧ ∀ k < 17,
    ((newshuffle.drop (16 * k)).take 16).Nodup ∧
      ∀ x ∈ (newshuffle.drop (16 * k)).take 16, x.toNat < 16 := by
  decide +kernel

theorem shuffled_lt {k v : Nat} (hk : k < 17) (hv : v < 16) : shuffled k v < 16 := by
  obtain ⟨hlength, hrows⟩ := newshuffle_rows
  have hlt : 16 * k + v < newshuffle.length := by omega
  apply (hrows k hk).2
  rw [byteAt, List.getD_eq_getElem _ _ hlt, List.mem_take_iff_getElem]
  refine ⟨v, by rw [List.length_drop]; omega, ?_⟩
  rw [List.getElem_drop]

theorem shuffled_inj {k v w : Nat} (hk : k < 17) (hv : v < 16) (hw : w < 16)
    (h : shuffled k v = shuffled k w) : v = w := by
  obtain ⟨hlength, hrows⟩ := newshuffle_rows
  have hrow : ∀ u < 16, u < ((newshuffle.drop (16 * k)).take 16).length := by
    intro u hu
    rw [List.length_take, List.length_drop]
    omega
  have hget : ∀ u (hu : u < 16), byteAt newshuffle (16 * k + u) =
      ((newshuffle.drop (16 * k)).take 16).get ⟨u, hrow u hu⟩ := by
    intro u hu
    rw [byteAt, List.getD_eq_getElem _ _ (by omega), List.get_eq_getElem, List.getElem_take,
      List.getElem_drop]
  have heq := UInt8.toNat_inj.mp h
  rw [hget v hv, hget w hw, List.get_eq_getElem, List.get_eq_getElem] at heq
  exact ((hrows k hk).1.getElem_inj_iff).mp heq

/-- Every row is a permutation of the nibbles. -/
theorem shuffled_surj {k u : Nat} (hk : k < 17) (hu : u < 16) : ∃ v < 16, shuffled k v = u := by
  let row : Fin 16 → Fin 16 := fun v => ⟨shuffled k v, shuffled_lt hk v.isLt⟩
  have hinj : Function.Injective row := by
    intro v w h
    have hval : (row v).val = (row w).val := by rw [h]
    exact Fin.ext (shuffled_inj hk v.isLt w.isLt hval)
  obtain ⟨v, hv⟩ := Finite.injective_iff_surjective.mp hinj ⟨u, hu⟩
  exact ⟨v, v.isLt, congrArg Fin.val hv⟩

/-- Bytes that are written to different places of a list are found there. -/
theorem byteAt_foldl_set {p : Nat → Nat} {f : Nat → UInt8} {m : Nat} {l : List UInt8}
    (hp : ∀ j < m, p j < l.length) (hinj : ∀ i < m, ∀ j < m, p i = p j → i = j) :
    ((List.range m).foldl (fun l j => l.set (p j) (f j)) l).length = l.length ∧
      ∀ j < m, byteAt ((List.range m).foldl (fun l j => l.set (p j) (f j)) l) (p j) = f j := by
  induction m with
  | zero => exact ⟨rfl, fun j hj => by omega⟩
  | succ m ih =>
      obtain ⟨hlength, hset⟩ := ih (fun j hj => hp j (by omega))
        fun i hi j hj => hinj i (by omega) j (by omega)
      simp only [List.range_succ, List.foldl_append, List.foldl_cons, List.foldl_nil,
        List.length_set]
      refine ⟨hlength, fun j hj => ?_⟩
      rw [byteAt, List.getD_eq_getElem?_getD]
      by_cases hjm : j = m
      · rw [hjm, List.getElem?_set_self (hlength ▸ hp m (by omega)), Option.getD_some]
      · rw [List.getElem?_set_ne fun heq => hjm (hinj j hj m (by omega) heq.symm),
          ← List.getD_eq_getElem?_getD]
        exact hset j (by omega)

/-- `invshuffle` undoes the rows of substitutions. -/
theorem invshuffle_shuffled {k v : Nat} (hk : k < 17) (hv : v < 16) :
    byteAt invshuffle (16 * k + shuffled k v) = UInt8.ofNat v := by
  have hplace : ∀ i, i / 16 * 16 + (byteAt newshuffle i).toNat =
      16 * (i / 16) + shuffled (i / 16) (i % 16) := by
    intro i
    rw [shuffled, Nat.div_add_mod, Nat.mul_comm]
  have hp : ∀ i < 256 + 16, i / 16 * 16 + (byteAt newshuffle i).toNat <
      (List.replicate (256 + 16) (0 : UInt8)).length := by
    intro i hi
    have hlt := shuffled_lt (k := i / 16) (v := i % 16) (by omega) (by omega)
    rw [hplace, List.length_replicate]
    omega
  have hinj : ∀ i < 256 + 16, ∀ j < 256 + 16, i / 16 * 16 + (byteAt newshuffle i).toNat =
      j / 16 * 16 + (byteAt newshuffle j).toNat → i = j := by
    intro i hi j hj heq
    rw [hplace, hplace] at heq
    have hlti := shuffled_lt (k := i / 16) (v := i % 16) (by omega) (by omega)
    have hltj := shuffled_lt (k := j / 16) (v := j % 16) (by omega) (by omega)
    have hrow : i / 16 = j / 16 := by omega
    rw [hrow] at heq hlti
    have hcolumn := shuffled_inj (k := j / 16) (by omega) (Nat.mod_lt i (by omega))
      (Nat.mod_lt j (by omega)) (by omega)
    omega
  have hset := (byteAt_foldl_set (f := fun i => UInt8.ofNat (i % 16)) hp hinj).2 (16 * k + v)
    (by omega)
  rw [hplace, show (16 * k + v) / 16 = k by omega, show (16 * k + v) % 16 = v by omega] at hset
  exact hset

/-! ## One round -/

theorem nibble_substitute (old copy : ByteBuf 8) {k : Nat} (hk : k < 16) :
    ((substitute old copy).nibble k).toNat =
      shuffled k (copy.nibble k ^^^ old.nibble k).toNat := by
  have hbyte : ∀ v i, v < 16 → i < 16 → (byteAt newshuffle (16 * i + v)).toNat < 16 :=
    fun v i hv hi => shuffled_lt (by omega) hv
  unfold substitute
  rw [ByteBuf.nibble_ofList_map _ hk, shuffled]
  dsimp only
  have hlo : ∀ x, (byteAt newshuffle ((lowNibble x).toNat + 0x20 * (k / 2))).toNat < 16 := by
    intro x
    have := hbyte _ (2 * (k / 2)) (lowNibble_lt x) (by omega)
    rwa [show 16 * (2 * (k / 2)) + (lowNibble x).toNat =
      (lowNibble x).toNat + 0x20 * (k / 2) by omega] at this
  have hhi : ∀ x, (byteAt newshuffle ((highNibble x).toNat + 0x20 * (k / 2) + 0x10)).toNat < 16 := by
    intro x
    have := hbyte _ (2 * (k / 2) + 1) (highNibble_lt x) (by omega)
    rwa [show 16 * (2 * (k / 2) + 1) + (highNibble x).toNat =
      (highNibble x).toNat + 0x20 * (k / 2) + 0x10 by omega] at this
  unfold ByteBuf.nibble
  split
  next hodd =>
    rw [highNibble_joinNibbles (hlo _), lowNibble_of_lt (hhi _), highNibble_xor]
    congr 2
    unfold byteAt
    omega
  next heven =>
    rw [lowNibble_joinNibbles (hlo _), lowNibble_xor]
    congr 2
    unfold byteAt
    omega

theorem invshuffle_lt {k v : Nat} (hk : k < 16) (hv : v < 16) :
    (byteAt invshuffle (16 * k + v)).toNat < 16 := by
  obtain ⟨u, hu, rfl⟩ := shuffled_surj (k := k) (by omega) hv
  rw [invshuffle_shuffled (by omega) hu, UInt8.toNat_ofNat']
  omega

theorem nibble_unsubstitute (oldpwd copy : ByteBuf 8) {k : Nat} (hk : k < 16) :
    (unsubstitute oldpwd copy).nibble k =
      byteAt invshuffle (16 * k + (copy.nibble k).toNat) ^^^ oldpwd.nibble k := by
  unfold unsubstitute
  rw [ByteBuf.nibble_ofList_map _ hk]
  have hlo : ∀ x, (byteAt invshuffle ((lowNibble x).toNat + k / 2 * 32)).toNat < 16 := by
    intro x
    have := invshuffle_lt (k := 2 * (k / 2)) (by omega) (lowNibble_lt x)
    rwa [show 16 * (2 * (k / 2)) + (lowNibble x).toNat =
      (lowNibble x).toNat + k / 2 * 32 by omega] at this
  have hhi : ∀ x, (byteAt invshuffle ((highNibble x).toNat + k / 2 * 32 + 16)).toNat < 16 := by
    intro x
    have := invshuffle_lt (k := 2 * (k / 2) + 1) (by omega) (highNibble_lt x)
    rwa [show 16 * (2 * (k / 2) + 1) + (highNibble x).toNat =
      (highNibble x).toNat + k / 2 * 32 + 16 by omega] at this
  unfold ByteBuf.nibble
  split
  next hodd =>
    rw [highNibble_xor, highNibble_joinNibbles (hlo _), lowNibble_of_lt (hhi _)]
    congr 2
    unfold byteAt
    omega
  next heven =>
    rw [lowNibble_xor, lowNibble_joinNibbles (hlo _)]
    congr 2
    unfold byteAt
    omega

theorem unsubstitute_substitute (old copy : ByteBuf 8) :
    unsubstitute old (substitute old copy) = copy := by
  apply ByteBuf.ext_nibble
  intro k hk
  have hlt : (copy.nibble k ^^^ old.nibble k).toNat < 16 := by
    rw [UInt8.toNat_xor]
    exact Nat.xor_lt_two_pow (n := 4) (copy.nibble_lt k) (old.nibble_lt k)
  rw [nibble_unsubstitute _ _ hk, nibble_substitute _ _ hk, invshuffle_shuffled (by omega) hlt,
    UInt8.ofNat_toNat, UInt8.xor_assoc, UInt8.xor_self, UInt8.xor_zero]

theorem substitute_unsubstitute (old copy : ByteBuf 8) :
    substitute old (unsubstitute old copy) = copy := by
  apply ByteBuf.ext_nibble
  intro k hk
  obtain ⟨u, hu, hcopy⟩ := shuffled_surj (k := k) (by omega) (copy.nibble_lt k)
  apply UInt8.toNat_inj.mp
  rw [nibble_substitute _ _ hk, nibble_unsubstitute _ _ hk, UInt8.xor_assoc, UInt8.xor_self,
    UInt8.xor_zero, ← hcopy, invshuffle_shuffled (by omega) hu, UInt8.toNat_ofNat',
    Nat.mod_eq_of_lt (by omega)]

theorem nibblePlace_eq (j : Nat) : nibblePlace j = shuffled 16 j := by
  unfold nibblePlace shuffled
  rw [Nat.add_comm]

theorem nibble_gatherNibbles (copy : ByteBuf 8) {k : Nat} (hk : k < 16) :
    (gatherNibbles copy).nibble k = copy.nibble (nibblePlace k) :=
  (ByteBuf.nibble_foldl_orNibble (n := 8) (p := id) (fun _ hj => hj) (fun _ _ _ _ heq => heq)
    (fun j => copy.nibble_lt (nibblePlace j))).1 k hk

theorem nibble_scatterNibbles (newpwd : ByteBuf 8) {j : Nat} (hj : j < 16) :
    (scatterNibbles newpwd).nibble (nibblePlace j) = newpwd.nibble j := by
  have hp : ∀ i < 16, nibblePlace i < 2 * 8 := by
    intro i hi
    rw [nibblePlace_eq]
    exact shuffled_lt (by omega) hi
  have hinj : ∀ i < 16, ∀ j < 16, nibblePlace i = nibblePlace j → i = j := by
    intro i hi j hj heq
    rw [nibblePlace_eq, nibblePlace_eq] at heq
    exact shuffled_inj (by omega) hi hj heq
  exact (ByteBuf.nibble_foldl_orNibble hp hinj newpwd.nibble_lt).1 j hj

theorem scatterNibbles_gatherNibbles (copy : ByteBuf 8) :
    scatterNibbles (gatherNibbles copy) = copy := by
  apply ByteBuf.ext_nibble
  intro k hk
  obtain ⟨j, hj, hplace⟩ := shuffled_surj (k := 16) (by omega) hk
  rw [← hplace, ← nibblePlace_eq, nibble_scatterNibbles _ hj, nibble_gatherNibbles _ hj]

theorem gatherNibbles_scatterNibbles (newpwd : ByteBuf 8) :
    gatherNibbles (scatterNibbles newpwd) = newpwd := by
  apply ByteBuf.ext_nibble
  intro k hk
  rw [nibble_gatherNibbles _ hk, nibble_scatterNibbles _ hk]

/-! ## The key -/

theorem nibble_rotateUp (old : ByteBuf 8) {k : Nat} (hk : k < 16) :
    (rotateUp old).nibble k = old.nibble ((k + 15) % 16) := by
  unfold rotateUp
  rw [ByteBuf.nibble_ofList_map _ hk]
  unfold ByteBuf.nibble byteAt
  split
  next hodd =>
    rw [highNibble_or, highNibble_of_lt (highNibble_lt _), highNibble_shiftLeft, UInt8.zero_or,
      if_neg (by omega), show (k + 15) % 16 / 2 = k / 2 by omega]
  next heven =>
    rw [lowNibble_or, lowNibble_of_lt (highNibble_lt _), lowNibble_shiftLeft, UInt8.or_zero,
      if_pos (by omega), show (k + 15) % 16 / 2 = (k / 2 + 7) % 8 by omega]

theorem nibble_rotateDown (oldpwd : ByteBuf 8) {k : Nat} (hk : k < 16) :
    (rotateDown oldpwd).nibble k = oldpwd.nibble ((k + 1) % 16) := by
  unfold rotateDown
  rw [ByteBuf.nibble_ofList_map _ hk]
  unfold ByteBuf.nibble byteAt
  split
  next hodd =>
    rw [highNibble_or, highNibble_of_lt (highNibble_lt _), highNibble_shiftLeft, UInt8.or_zero,
      if_neg (by omega), show (k + 1) % 16 / 2 = (k / 2 + 1) % 8 by omega]
  next heven =>
    rw [lowNibble_or, lowNibble_of_lt (highNibble_lt _), lowNibble_shiftLeft, UInt8.zero_or,
      if_pos (by omega), show (k + 1) % 16 / 2 = k / 2 by omega]

theorem rotateDown_rotateUp (old : ByteBuf 8) : rotateDown (rotateUp old) = old := by
  apply ByteBuf.ext_nibble
  intro k hk
  rw [nibble_rotateDown _ hk, nibble_rotateUp _ (Nat.mod_lt _ (by omega)),
    show ((k + 1) % 16 + 15) % 16 = k by omega]

theorem rotateUp_rotateDown (oldpwd : ByteBuf 8) : rotateUp (rotateDown oldpwd) = oldpwd := by
  apply ByteBuf.ext_nibble
  intro k hk
  rw [nibble_rotateUp _ hk, nibble_rotateDown _ (Nat.mod_lt _ (by omega)),
    show ((k + 15) % 16 + 1) % 16 = k by omega]

theorem nibble_rotateUp_iterate (old : ByteBuf 8) (n : Nat) {k : Nat} (hk : k < 16) :
    (rotateUp^[n] old).nibble k = old.nibble ((k + 15 * n) % 16) := by
  induction n generalizing k with
  | zero => rw [Function.iterate_zero, id, show (k + 15 * 0) % 16 = k by omega]
  | succ n ih =>
      rw [Function.iterate_succ', Function.comp, nibble_rotateUp _ hk,
        ih (Nat.mod_lt _ (by omega))]
      congr 1
      omega

/-- After 16 turns the key is what it was. -/
theorem rotateUp_iterate_sixteen (old : ByteBuf 8) : rotateUp^[16] old = old := by
  apply ByteBuf.ext_nibble
  intro k hk
  rw [nibble_rotateUp_iterate _ _ hk, show (k + 15 * 16) % 16 = k by omega]

/-! ## Sixteen rounds -/

/-- A round of `nw_decrypt_newpass` undoes one of `newpassencrypt`, key included. -/
theorem decryptNewpassRound_leftInverse :
    Function.LeftInverse decryptNewpassRound newpassencryptRound := by
  intro w
  unfold decryptNewpassRound newpassencryptRound
  dsimp only
  rw [rotateDown_rotateUp, scatterNibbles_gatherNibbles, unsubstitute_substitute]

theorem decryptNewpassRound_rightInverse :
    Function.RightInverse decryptNewpassRound newpassencryptRound := by
  intro w
  unfold decryptNewpassRound newpassencryptRound
  dsimp only
  rw [rotateUp_rotateDown, substitute_unsubstitute, gatherNibbles_scatterNibbles]

theorem newpassencrypt_key (old new : ByteBuf 8) : (newpassencrypt old new).1 = old := by
  have hkey : Function.Semiconj Prod.fst newpassencryptRound rotateUp := fun _ => rfl
  exact ((hkey.iterate_right 16) (old, new)).trans (rotateUp_iterate_sixteen old)

theorem nwDecryptNewpass_newpassencrypt (old new : ByteBuf 8) :
    nwDecryptNewpass old (newpassencrypt old new).2 = (old, new) := by
  have hround := (decryptNewpassRound_leftInverse.iterate 16) (old, new)
  have hpair : newpassencryptRound^[16] (old, new) = (old, (newpassencrypt old new).2) :=
    Prod.ext (newpassencrypt_key old new) rfl
  rw [hpair] at hround
  exact hround

theorem nwDecryptNewpass_key (oldpwd newpwd : ByteBuf 8) :
    (nwDecryptNewpass oldpwd newpwd).1 = oldpwd := by
  have hkey : Function.Semiconj Prod.fst decryptNewpassRound rotateDown := fun _ => rfl
  have hdown : rotateDown^[16] oldpwd = oldpwd := by
    have hinv : Function.LeftInverse rotateDown rotateUp := rotateDown_rotateUp
    have hturn := hinv.iterate 16 oldpwd
    rwa [rotateUp_iterate_sixteen] at hturn
  exact ((hkey.iterate_right 16) (oldpwd, newpwd)).trans hdown

theorem newpassencrypt_nwDecryptNewpass (oldpwd newpwd : ByteBuf 8) :
    (newpassencrypt oldpwd (nwDecryptNewpass oldpwd newpwd).2).2 = newpwd := by
  have hround := (decryptNewpassRound_rightInverse.iterate 16) (oldpwd, newpwd)
  have hpair : decryptNewpassRound^[16] (oldpwd, newpwd) =
      (oldpwd, (nwDecryptNewpass oldpwd newpwd).2) :=
    Prod.ext (nwDecryptNewpass_key oldpwd newpwd) rfl
  rw [hpair] at hround
  exact congrArg Prod.snd hround

theorem newpassencrypt_bijective (old : ByteBuf 8) :
    Function.Bijective fun new => (newpassencrypt old new).2 :=
  Function.bijective_iff_has_inverse.mpr ⟨fun out => (nwDecryptNewpass old out).2,
    fun new => congrArg Prod.snd (nwDecryptNewpass_newpassencrypt old new),
    newpassencrypt_nwDecryptNewpass old⟩

/-! ## Changing the password -/

/-- `nw_valid_keynewpasswd`. -/
def nwValidKeynewpasswd (c : Caller) (b : Bindery F) (objId : UInt32) (pwdlen : Nat) : Int :=
  match nwGetLoginControl c b objId with
  | none => 0
  | some lc => if pwdlen < lc.minimumPasswordLength.toNat then -0xd8 else 0

/-- The length of the new password, as `nw_keychange_passwd` decrypts it. -/
def newpassLength (cryptedlen : UInt8) (storedpass : ByteBuf 16) : Nat :=
  ((cryptedlen ^^^ byteField storedpass.bytes 0 ^^^ byteField storedpass.bytes 1) &&& 0x3f).toNat

/-- The tests of `nw_keychange_passwd`: `storedpass` if they are passed. A
supervisor may also answer with the hash of no password. -/
def keychangeStoredpass (c : Caller) (b : Bindery F) (objId : UInt32) (cryptkey oldpass : ByteBuf 8)
    (cryptedlen : UInt8) (idFlags : UInt32) : Except Int (ByteBuf 16) :=
  let (result, storedpass, _) := locNwTestPasswd c b objId cryptkey oldpass
  let blank := shuffle (be32Bytes objId) []
  if result < 0 ∧ (idFlags &&& 1 = 0 ∨ oldpass ≠ nwEncrypt cryptkey blank) then .error (-0xff)
  else
    let storedpass := if result < 0 then blank else storedpass
    let result := nwValidKeynewpasswd c b objId (newpassLength cryptedlen storedpass)
    if result < 0 then .error result else .ok storedpass

/-- Both halves of a buffer of 16 bytes, each with its half of the key. -/
def eachHalf (f : ByteBuf 8 → ByteBuf 8 → ByteBuf 8) (key pass : ByteBuf 16) : ByteBuf 16 :=
  .ofList 16 ((f (fieldAt key.bytes 0 8) (fieldAt pass.bytes 0 8)).bytes ++
    (f (fieldAt key.bytes 8 8) (fieldAt pass.bytes 8 8)).bytes)

/-- The end of `nw_keychange_passwd`: it answers 1 if the new password is empty. -/
def setNewpass (h : Host) (now : Int) (c : Caller) (b : Bindery F) (objId : UInt32)
    (newpass : ByteBuf 16) : Int × Bindery F :=
  let (result, b) := nwSetEnpasswd h now c b objId (some newpass) false
  if result < 0 then (result, b)
  else (if newpass = shuffle (be32Bytes objId) [] then 1 else 0, b)

/-- `nw_keychange_passwd`. -/
def nwKeychangePasswd (h : Host) (now : Int) (c : Caller) (b : Bindery F) (objId : UInt32)
    (cryptkey oldpass : ByteBuf 8) (cryptedlen : UInt8) (newpass : ByteBuf 16) (idFlags : UInt32) :
    Int × Bindery F :=
  match keychangeStoredpass c b objId cryptkey oldpass cryptedlen idFlags with
  | .error e => (e, b)
  | .ok storedpass =>
      setNewpass h now c b objId
        (eachHalf (fun old new => (nwDecryptNewpass old new).2) storedpass newpass)

theorem fieldAt_append_left {l₁ l₂ : List UInt8} (h₁ : l₁.length = 8) :
    (fieldAt (l₁ ++ l₂) 0 8).bytes = l₁ := by
  unfold fieldAt
  rw [List.drop_zero, List.take_left' h₁, ByteBuf.bytes_ofList h₁]

theorem fieldAt_append_right {l₁ l₂ : List UInt8} (h₁ : l₁.length = 8) (h₂ : l₂.length = 8) :
    (fieldAt (l₁ ++ l₂) 8 8).bytes = l₂ := by
  unfold fieldAt
  rw [List.drop_left' h₁, List.take_of_length_le h₂.le, ByteBuf.bytes_ofList h₂]

/-- What undoes a function half by half undoes it as a whole. -/
theorem eachHalf_eachHalf {f g : ByteBuf 8 → ByteBuf 8 → ByteBuf 8}
    (hinv : ∀ old new, g old (f old new) = new) (key pass : ByteBuf 16) :
    eachHalf g key (eachHalf f key pass) = pass := by
  have hlength : ((f (fieldAt key.bytes 0 8) (fieldAt pass.bytes 0 8)).bytes ++
      (f (fieldAt key.bytes 8 8) (fieldAt pass.bytes 8 8)).bytes).length = 16 := by
    rw [List.length_append, ByteBuf.length_eq, ByteBuf.length_eq]
  have hleft : fieldAt (eachHalf f key pass).bytes 0 8 =
      f (fieldAt key.bytes 0 8) (fieldAt pass.bytes 0 8) := by
    apply ByteBuf.ext
    rw [eachHalf, ByteBuf.bytes_ofList hlength, fieldAt_append_left (ByteBuf.length_eq _)]
  have hright : fieldAt (eachHalf f key pass).bytes 8 8 =
      f (fieldAt key.bytes 8 8) (fieldAt pass.bytes 8 8) := by
    apply ByteBuf.ext
    rw [eachHalf, ByteBuf.bytes_ofList hlength,
      fieldAt_append_right (ByteBuf.length_eq _) (ByteBuf.length_eq _)]
  have hparts : (fieldAt pass.bytes 0 8).bytes ++ (fieldAt pass.bytes 8 8).bytes = pass.bytes := by
    have htake : (pass.bytes.take 8).length = 8 := by
      rw [List.length_take, pass.length_eq]
      rfl
    have hdrop : (pass.bytes.drop 8).length = 8 := by rw [List.length_drop, pass.length_eq]
    unfold fieldAt
    rw [List.drop_zero, ByteBuf.bytes_ofList htake, List.take_of_length_le hdrop.le,
      ByteBuf.bytes_ofList hdrop, List.take_append_drop]
  rw [eachHalf, hleft, hright, hinv, hinv, hparts, ByteBuf.ofList_bytes]

/-- The cipher for changed passwords: decryption undoes encryption, which is a
bijection for every key, neither changes the key, and `nw_keychange_passwd` sets
the very bytes that the client encrypted. -/
theorem newpass_roundtrip :
    (∀ old new, nwDecryptNewpass old (newpassencrypt old new).2 = (old, new)) ∧
    (∀ old, Function.Bijective fun new => (newpassencrypt old new).2) ∧
    (∀ old block, (newpassencrypt old block).1 = old ∧ (nwDecryptNewpass old block).1 = old) ∧
    ∀ (h : Host) (now : Int) (c : Caller) (b : Bindery F) (objId : UInt32)
      (cryptkey oldpass : ByteBuf 8) (cryptedlen : UInt8) (idFlags : UInt32),
      match keychangeStoredpass c b objId cryptkey oldpass cryptedlen idFlags with
      | .error e => ∀ newpass,
          nwKeychangePasswd h now c b objId cryptkey oldpass cryptedlen newpass idFlags = (e, b)
      | .ok storedpass => ∀ realnew,
          nwKeychangePasswd h now c b objId cryptkey oldpass cryptedlen
            (eachHalf (fun old new => (newpassencrypt old new).2) storedpass realnew) idFlags =
          setNewpass h now c b objId realnew := by
  refine ⟨nwDecryptNewpass_newpassencrypt, newpassencrypt_bijective,
    fun old block => ⟨newpassencrypt_key old block, nwDecryptNewpass_key old block⟩, ?_⟩
  intro h now c b objId cryptkey oldpass cryptedlen idFlags
  split
  next e htest =>
    intro newpass
    rw [nwKeychangePasswd, htest]
  next storedpass htest =>
    intro realnew
    rw [nwKeychangePasswd, htest]
    dsimp only
    rw [eachHalf_eachHalf fun old new => congrArg Prod.snd (nwDecryptNewpass_newpassencrypt old new)]

end MarsNwe
