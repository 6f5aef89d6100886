import RvOs.Proof.LoadCorrect
import RvOs.Proof.Uart
import RvOs.Proof.UserCopy

/-!
# `write`

`syscall_write` sends the bytes that `Sent` says, then returns or faults
(`writeLoop_ok`). So what it shows of memory is confined to user memory exactly
when those bytes are (`syscallWrite_confidential`): the pointer is checked for
null only, and S-mode may read the kernel's own pages.
-/

namespace RvOs

open Exec

variable {T : Translation} {buffer : U64}

theorem putBytes_ok : ∀ (temp : List Byte) (s : Hart),
    putBytes temp s = .ok () { s with tx := s.tx ++ temp.filter (· ≠ 0) }
  | [], s => by
    rw [List.filter_nil, List.append_nil]
    rfl
  | b :: temp, s => by
    rw [putBytes, bind_ok (uartPuts_eq _ _), putBytes_ok temp, List.append_assoc]
    by_cases hb : b = 0
    · rw [List.takeWhile_cons_of_neg (by simpa using hb), List.filter_cons_of_neg (by simpa using hb)]
      rfl
    · rw [List.takeWhile_cons_of_pos (by simpa using hb), List.filter_cons_of_pos (by simpa using hb)]
      rfl

theorem userBytes_add (m : Mem) (buffer : U64) (c k : Nat) :
    userBytes T m buffer (c + k) = userBytes T m buffer c ++ userBytes T m (byteAddr buffer c) k := by
  simp only [userBytes, List.range_add, List.map_append, List.map_map, Function.comp_def, byteAddr_add]

/-- The size of a chunk of `length` bytes. -/
def ChunkSize (length c : Nat) : Prop := c = length ∧ length ≤ 256 ∨ c = 256 ∧ 256 < length

theorem writeChunk_size (length : U64) : ChunkSize length.toNat (writeChunk length).toNat := by
  have h256 : tempSize.toNat = 256 := rfl
  rw [writeChunk]
  split
  · rename_i h
    have hlt : length.toNat < 256 := h
    exact .inl ⟨rfl, by omega⟩
  · rename_i h
    have hle : 256 ≤ length.toNat := Nat.le_of_not_lt h
    rw [h256]
    rcases Nat.eq_or_lt_of_le hle with he | hlt
    · exact .inl ⟨he, by omega⟩
    · exact .inr ⟨rfl, hlt⟩

/-- A chunk that is copied is sent, and then what is sent of the rest. -/
theorem sent_chunk {length c : Nat} (hc : ChunkSize length c) (hb : buffer ≠ 0)
    (h : ∀ i < c, T.Allows .load (byteAddr buffer i)) (i : Nat) :
    Sent T buffer length i ↔ i < c ∨ (c ≤ i ∧ Sent T (byteAddr buffer c) (length - c) (i - c)) := by
  have hfirst (j : Nat) (hj : j < c) :
      T.Allows .load (byteAddr buffer j) ∧ byteAddr buffer (256 * (j / 256)) ≠ 0 := by
    have hj0 : j / 256 = 0 := Nat.div_eq_of_lt (by rcases hc with hc | hc <;> omega)
    rw [hj0, Nat.mul_zero, byteAddr_zero]
    exact ⟨h j hj, hb⟩
  rcases hc with ⟨rfl, hc⟩ | ⟨rfl, hc⟩
  · refine ⟨fun hs => .inl hs.1, fun hs => ?_⟩
    rcases hs with hs | ⟨hle, hs⟩
    · exact ⟨hs, fun j hj _ => hfirst j hj⟩
    · exact absurd hs.1 (by omega)
  · by_cases hi : i < 256
    · refine ⟨fun _ => .inl hi, fun _ => ⟨by omega, fun j hj hji => hfirst j (by omega)⟩⟩
    · have hdiv (j : Nat) : 256 * ((256 + j) / 256) = 256 + 256 * (j / 256) := by omega
      refine ⟨fun hs => .inr ⟨by omega, by have := hs.1; omega, fun j hj hji => ?_⟩, fun hs => ?_⟩
      · have hj' := hs.2 (256 + j) (by omega) (by omega)
        rw [hdiv] at hj'
        rw [byteAddr_add, byteAddr_add]
        exact hj'
      · obtain ⟨hle, hs⟩ := hs.resolve_left hi
        refine ⟨by have := hs.1; omega, fun j hj hji => ?_⟩
        by_cases hj256 : j < 256
        · exact hfirst j hj256
        · have hj' := hs.2 (j - 256) (by omega) (by omega)
          rw [byteAddr_add, byteAddr_add, ← hdiv, show 256 + (j - 256) = j by omega] at hj'
          exact hj'

/-- How `write` ends when it has sent `k` bytes of `length`, with the result `total` if it sends all. -/
inductive WriteEnd (T : Translation) (buffer : U64) (length k : Nat) (total : U64) : Except Stop U64 → Prop
  | done (h : k = length) : WriteEnd T buffer length k total (.ok total)
  | null (h : k < length) (chunk : k % 256 = 0) (hk : byteAddr buffer k = 0) :
      WriteEnd T buffer length k total (.ok ERR_FAULT)
  | fault (i : Nat) (hi : k ≤ i) (h : i < length) (chunk : k % 256 = 0) (hik : i / 256 = k / 256)
      (hk : byteAddr buffer k ≠ 0) (hf : ¬ T.Allows .load (byteAddr buffer i)) :
      WriteEnd T buffer length k total (.error (.fault .load (byteAddr buffer i)))

theorem WriteEnd.chunk {length c k : Nat} {total : U64} {r : Except Stop U64} (hc : ChunkSize length c)
    (h : WriteEnd T (byteAddr buffer c) (length - c) k total r) : WriteEnd T buffer length (c + k) total r := by
  cases h with
  | done h => exact .done (by rcases hc with hc | hc <;> omega)
  | null h chunk hk =>
    rw [byteAddr_add] at hk
    rcases hc with hc | ⟨rfl, hc⟩
    · omega
    · exact .null (by omega) (by omega) hk
  | fault i hi h chunk hik hk hf =>
    rw [byteAddr_add] at hk hf ⊢
    rcases hc with hc | ⟨rfl, hc⟩
    · omega
    · exact .fault (256 + i) (by omega) (by omega) (by omega) (by omega) hk hf

/-- The state a copy leaves: SUM stays set by one that faults. -/
def Hart.afterCopy (s : Hart) : Except Stop U64 → Hart
  | .ok _ => s
  | .error _ => s.withSum

/-- The computation sends the bytes that are `Sent`, but for zero bytes, and ends accordingly. -/
def Writes (T : Translation) (buffer : U64) (length : Nat) (total : U64) (x : Exec U64) : Prop :=
  ∃ k r, (∀ i, Sent T buffer length i ↔ i < k) ∧ WriteEnd T buffer length k total r ∧ ∀ s : Hart,
    x s = finish r (Hart.afterCopy { s with tx := s.tx ++ (userBytes T s.mem buffer k).filter (· ≠ 0) } r)

/-- Nothing is sent, and the computation ends. -/
theorem Writes.none {length : Nat} {total : U64} {x : Exec U64} {r : Except Stop U64}
    (hsent : ∀ i, ¬ Sent T buffer length i) (hend : WriteEnd T buffer length 0 total r)
    (h : ∀ s : Hart, x s = finish r (s.afterCopy r)) : Writes T buffer length total x := by
  refine ⟨0, r, fun i => ⟨fun hi => absurd hi (hsent i), fun hi => absurd hi (Nat.not_lt_zero i)⟩, hend, fun s => ?_⟩
  have hs : ({ s with tx := s.tx ++ (userBytes T s.mem buffer 0).filter (· ≠ 0) } : Hart) = s := by
    rw [userBytes, List.range_zero, List.map_nil, List.filter_nil, List.append_nil]
  rw [h, hs]

/-- A chunk is sent, and then the rest. -/
theorem Writes.chunk {length c : Nat} {total : U64} {x y : Exec U64} (hc : ChunkSize length c) (hb : buffer ≠ 0)
    (h : ∀ i < c, T.Allows .load (byteAddr buffer i))
    (hx : ∀ s : Hart, x s = y { s with tx := s.tx ++ (userBytes T s.mem buffer c).filter (· ≠ 0) })
    (hy : Writes T (byteAddr buffer c) (length - c) total y) : Writes T buffer length total x := by
  obtain ⟨k, r, hsent, hend, hy⟩ := hy
  refine ⟨c + k, r, fun i => ?_, hend.chunk hc, fun s => ?_⟩
  · rw [sent_chunk hc hb h, hsent]
    omega
  · rw [hx, hy, userBytes_add, List.filter_append]
    simp only [List.append_assoc]

/-- `write` sends the bytes that are `Sent`, but for zero bytes. -/
theorem writeLoop_ok (T : Translation) (n : Nat) : ∀ buffer length totalWritten : U64, length.toNat = n →
    Writes T buffer n (totalWritten + length) (writeLoop T buffer length totalWritten) := by
  induction n using Nat.strongRecOn with
  | ind n ih =>
    rintro buffer length totalWritten rfl
    by_cases hl : 0 < length
    swap
    · have hl0 : length.toNat = 0 := Nat.eq_zero_of_not_pos hl
      refine .none (r := .ok (totalWritten + length)) (fun i hi => absurd hi.1 (by omega)) (.done hl0.symm) fun s => ?_
      have hz : ∀ x : U64, x + 0 = x := BitVec.add_zero
      rw [writeLoop, dif_neg hl, BitVec.eq_of_toNat_eq (y := 0) hl0, hz]
      rfl
    have hlt : 0 < length.toNat := hl
    have hc := writeChunk_size length
    have hc0 : 0 < (writeChunk length).toNat := by rcases hc with hc | hc <;> omega
    by_cases hb : buffer = 0
    · subst hb
      refine .none (r := .ok ERR_FAULT) (fun i hi => (hi.2 0 hlt (by omega)).2 (byteAddr_zero 0))
        (.null hlt rfl (byteAddr_zero 0)) fun s => ?_
      rw [writeLoop, dif_pos hl]
      exact bind_ok (copyFromUser_null (BitVec.toNat_ne.mpr (by simpa using hc0.ne')))
    rcases allows_or_first T .load buffer (writeChunk length).toNat with h | ⟨i, hi, hok, hf⟩
    · have haddr : byteAddr buffer (writeChunk length).toNat = buffer + writeChunk length := by
        rw [byteAddr, BitVec.ofNat_toNat, BitVec.setWidth_eq]
      have hsub : (length - writeChunk length).toNat = length.toNat - (writeChunk length).toNat :=
        BitVec.toNat_sub_of_le (by rcases hc with hc | hc <;> exact BitVec.le_def.mpr (by omega))
      have hsum : totalWritten + writeChunk length + (length - writeChunk length) = totalWritten + length := by
        rw [BitVec.add_assoc, BitVec.add_comm (writeChunk length), BitVec.sub_add_cancel]
      have hrest := ih _ (writeChunk_lt hl) (buffer + writeChunk length) _ (totalWritten + writeChunk length) rfl
      rw [hsub, hsum, ← haddr] at hrest
      refine .chunk hc hb h (fun s => ?_) hrest
      rw [writeLoop, dif_pos hl, haddr]
      refine (bind_ok (copyFromUser_ok hb h)).trans ?_
      exact bind_ok (putBytes_ok _ _)
    · have hi256 : i < length.toNat ∧ i / 256 = 0 := by rcases hc with hc | hc <;> omega
      refine .none (fun j hj => hf (hj.2 i hi256.1 (by omega)).1)
        (.fault i (Nat.zero_le i) hi256.1 rfl hi256.2 (by rwa [byteAddr_zero]) hf) fun s => ?_
      rw [writeLoop, dif_pos hl]
      exact bind_error (copyFromUser_fault hb hi hok hf)

theorem syscallWrite_badf {fd : U64} (h : ¬ IsOutput fd) (buffer length : U64) :
    syscallWrite T fd buffer length = pure ERR_BADF := by
  rw [syscallWrite, if_pos (not_or.mp h)]

theorem syscallWrite_ok (T : Translation) {fd : U64} (h : IsOutput fd) (buffer length : U64) :
    Writes T buffer length.toNat length (syscallWrite T fd buffer length) := by
  rw [syscallWrite, if_neg fun hn => h.elim hn.1 hn.2]
  by_cases hl : length = 0
  · subst hl
    rw [if_pos rfl]
    exact .none (r := .ok 0) (fun i hi => absurd hi.1 (Nat.not_lt_zero i)) (.done rfl) fun s => rfl
  · have hz : ∀ x : U64, 0 + x = x := BitVec.zero_add
    rw [if_neg hl]
    have hw := writeLoop_ok T _ buffer length 0 rfl
    rwa [hz] at hw

/-! ## Confidentiality -/

@[simp] theorem afterCopy_tx (s : Hart) (r : Except Stop U64) : (s.afterCopy r).tx = s.tx := by cases r <;> rfl

/-- What is seen of `write`. -/
theorem Writes.observe {length : Nat} {total : U64} {x : Exec U64} (h : Writes T buffer length total x) :
    ∃ k r, (∀ i, Sent T buffer length i ↔ i < k) ∧ ∀ s,
      RvOs.observe (x s) = (r, s.tx ++ (userBytes T s.mem buffer k).filter (· ≠ 0)) := by
  obtain ⟨k, r, hsent, -, hx⟩ := h
  refine ⟨k, r, hsent, fun s => ?_⟩
  rw [hx, RvOs.observe, outcome_finish, final_finish, afterCopy_tx]

/-- Memory with one byte changed. -/
theorem agreeOnUser_update {pa : Addr} (h : ¬ T.InUserPage PTE_R pa) (m : Mem) (b : Byte) :
    AgreeOnUser T m (m.write8 pa b) := fun x hx => by
  rw [Mem.write8_of_ne]
  rintro rfl
  exact h hx

theorem filter_userBytes {m : Mem} (h : ∀ x, m x ≠ 0) (k : Nat) :
    (userBytes T m buffer k).filter (· ≠ 0) = userBytes T m buffer k := by
  refine List.filter_eq_self.mpr fun b hb => ?_
  obtain ⟨i, -, rfl⟩ := List.mem_map.mp hb
  exact decide_eq_true (h _)

/-- A byte that is sent and is not of user memory is shown. -/
theorem WriteConfidential.sent {fd length : U64} (h : WriteConfidential T fd buffer length) (hfd : IsOutput fd)
    {i : Nat} (hi : Sent T buffer length.toNat i) : T.InUserPage PTE_R (T.phys (byteAddr buffer i)) := by
  obtain ⟨k, r, hsent, hx⟩ := (syscallWrite_ok T hfd buffer length).observe
  rw [hsent] at hi
  by_contra hu
  -- all bytes are 0x41, and in the other memory this one is not
  let s : Hart := { mem := fun _ => 0x41, sstatus := 0, rx := [], tx := [] }
  have hs := h s _ (agreeOnUser_update hu s.mem 0x42)
  rw [hx, hx, Prod.mk.injEq, List.append_cancel_left_eq, filter_userBytes fun _ => (by decide : (0x41 : Byte) ≠ 0),
    filter_userBytes fun x => ?_, userBytes, userBytes, List.map_inj_left] at hs
  · have hi' := (hs.2 i (List.mem_range.mpr hi)).trans (Mem.write8_self ..)
    exact absurd hi' (by decide)
  · show s.mem.write8 _ 0x42 x ≠ 0
    simp only [Mem.write8]
    split
    · decide
    · exact (by decide : (0x41 : Byte) ≠ 0)

/-- `write` shows user memory only, exactly when every byte it sends is also one of
user memory. -/
theorem syscallWrite_confidential (T : Translation) (fd buffer length : U64) :
    WriteConfidential T fd buffer length ↔
      ¬ IsOutput fd ∨ ∀ i, Sent T buffer length.toNat i → T.InUserPage PTE_R (T.phys (byteAddr buffer i)) := by
  by_cases hfd : IsOutput fd
  swap
  · refine ⟨fun _ => .inl hfd, fun _ s m' _ => ?_⟩
    rw [syscallWrite_badf hfd]
    rfl
  rw [or_iff_right (not_not.mpr hfd)]
  refine ⟨fun h i hi => h.sent hfd hi, fun h s m' hm => ?_⟩
  obtain ⟨k, r, hsent, hx⟩ := (syscallWrite_ok T hfd buffer length).observe
  have hb : userBytes T s.mem buffer k = userBytes T m' buffer k :=
    List.map_congr_left fun i hi => hm _ (h i ((hsent i).mpr (List.mem_range.mp hi)))
  rw [hx, hx, hb]

/-- A user process prints a byte of the kernel's `.bss`. -/
theorem write_shows_kernel : ∃ T, SampleProcess T ∧ ¬ WriteConfidential T 1 sampleSymbols.bssStart 1 := by
  obtain ⟨T, h⟩ := sample_process
  refine ⟨T, h, fun hw => ?_⟩
  have haddr := byteAddr_zero sampleSymbols.bssStart
  have hsent : Sent T sampleSymbols.bssStart 1 0 := by
    refine ⟨by decide, fun j hj _ => ?_⟩
    obtain rfl : j = 0 := by omega
    rw [Nat.zero_div, Nat.mul_zero, haddr]
    exact ⟨⟨_, _, h.bss, by decide⟩, by decide⟩
  have hu := hw.sent (.inl rfl) hsent
  rw [haddr, Translation.phys, h.bss] at hu
  exact h.kernel PTE_R sampleSymbols.bssStart (by decide) (by decide) hu

end RvOs
