import Mikage.Lib.Masks
import Mikage.Memory.FirstFit
import Mikage.Memory.UnmapProof
import Mikage.OS.PxiTables

/-!
# The pages of a mapped buffer

`translateMapBuffer` over the maps of the two processes. A request maps the pages around a buffer
into the server, chunk by chunk, and a reply unmaps the pages around the address it is given.

- `Image`: what the loop over the chunks leaves in the server; `mapChunks_ends` says where it does.
- `request_ends`, `reply_ends`: the two translations of one buffer.
-/

namespace Mikage.IPC

open TranslationDescriptor

/-- The maps of the sender and the receiver of a message. -/
structure Maps where
  source : VirtualMemory
  dest : VirtualMemory

variable {Object : Type}

/-- The result of an update of a map, for the system that holds it. -/
def updated (r : MapResult) (t : Maps) : EStateM.Result Exception Maps Bool :=
  match r.outcome with
  | .ok b => .ok b t
  | .error e => .error e t

/-- A system that resolves in the source's map, maps in the destination's and unmaps in the
source's. Reading memory may throw. -/
def mapSystem (other : System Maps Object) (reads : VAddr → Except Exception (BitVec 8)) :
    System Maps Object :=
  { other with
    resolveVirtualAddrWithSize := fun addr t => chunkAt t.source addr
    findAvailableVirtualMemory := fun size vstart vend t =>
      Mikage.findAvailableVirtualMemory t.dest size vstart vend
    mapVirtualMemory := fun paddr size vaddr permissions t =>
      let r := Mikage.mapVirtualMemory t.dest paddr size vaddr permissions
      updated r { t with dest := r.memory }
    unmapVirtualMemory := fun vaddr size t =>
      let r := Mikage.unmapVirtualMemory t.source vaddr size
      updated r { t with source := r.memory }
    readMemory := fun addr t =>
      match reads addr with
      | .ok b => .ok b t
      | .error e => .error e t }

/-- A mapped buffer of a message: its descriptor, where it is in the client and where the server
gets it. -/
structure Buffer where
  descriptor : TranslationDescriptor
  addr : VAddr
  delivered : VAddr

def pageOf (addr : VAddr) : VAddr := addr &&& ~~~0xfff#32

/-- The size of the pages around a buffer. -/
def mappedSize (addr : VAddr) (size : BitVec 32) : BitVec 32 :=
  ((addr + size + 0xfff) &&& ~~~0xfff#32) - (addr &&& ~~~0xfff#32)

namespace Buffer

def size (b : Buffer) : BitVec 32 := b.descriptor.mapBufferSize

/-- The pages of the buffer in the client. -/
def pages (b : Buffer) : BitVec 32 := mappedSize b.addr b.size

/-- Where the pages are in the server: the buffer keeps its offset into the first one. -/
def start (b : Buffer) : VAddr := b.delivered - (b.addr &&& 0xfff)

/-- An address of the server at which the buffer is mapped. -/
def Covers (b : Buffer) (a : VAddr) : Prop :=
  b.size ≠ 0 ∧ b.start.toNat ≤ a.toNat ∧ a.toNat < b.start.toNat + b.pages.toNat

instance (b : Buffer) (a : VAddr) : Decidable (b.Covers a) :=
  inferInstanceAs (Decidable (_ ∧ _ ∧ _))

end Buffer

/-- No mapping ends within one of the pages from `a` on. -/
def WholePages (m : VirtualMemory) (a : VAddr) (size : ℕ) : Prop :=
  ∀ k < size, 4096 ∣ k → ∀ chunk, chunkAt m (a + BitVec.ofNat 32 k) = some chunk →
    4096 ∣ chunk.size.toNat ∨ size - k ≤ chunk.size.toNat

/-! ## Pages -/

section

variable {a dest : VAddr} {size : BitVec 32} {k : ℕ} {b : Buffer}

theorem toNat_pageOf : (pageOf a).toNat = a.toNat / 4096 * 4096 := BitVec.toNat_and_not_mask a 12

theorem pageOf_add (hk : 4096 ∣ k) :
    pageOf (a + BitVec.ofNat 32 k) = pageOf a + BitVec.ofNat 32 k := by
  obtain ⟨n, rfl⟩ := hk
  refine BitVec.eq_of_toNat_eq ?_
  rw [toNat_pageOf, BitVec.toNat_add, BitVec.toNat_add, toNat_pageOf, BitVec.toNat_ofNat]
  omega

theorem toNat_mappedSize (h : size.toNat < 2 ^ 27) : (mappedSize a size).toNat =
    (a.toNat % 4096 + size.toNat + 4095) / 4096 * 4096 := by
  show (pageOf (a + size + 0xfff) - pageOf a).toNat = _
  have ha := a.isLt
  have hpage : (0xfff : BitVec 32).toNat = 4095 := rfl
  rw [BitVec.toNat_sub, toNat_pageOf, toNat_pageOf, BitVec.toNat_add, BitVec.toNat_add, hpage]
  omega

theorem Buffer.size_lt (b : Buffer) : b.size.toNat < 2 ^ 27 := by
  unfold Buffer.size mapBufferSize
  rw [BitVec.toNat_setWidth_of_le (by decide)]
  exact BitVec.isLt _

theorem Buffer.toNat_pages (b : Buffer) : b.pages.toNat =
    (b.addr.toNat % 4096 + b.size.toNat + 4095) / 4096 * 4096 := toNat_mappedSize b.size_lt

/-- The pages hold the offset into the first one and the buffer. -/
theorem Buffer.le_pages (b : Buffer) : b.addr.toNat % 4096 + b.size.toNat ≤ b.pages.toNat := by
  rw [b.toNat_pages]
  omega

theorem Buffer.pages_ne_zero (hs : b.size ≠ 0) : b.pages ≠ 0 := by
  intro hzero
  have hle := b.le_pages
  have h0 : (0 : BitVec 32).toNat = 0 := rfl
  rw [hzero, h0] at hle
  exact hs (BitVec.eq_of_toNat_eq (by omega))

theorem Buffer.start_eq (h : b.delivered = dest + (b.addr &&& 0xfff)) : b.start = dest := by
  rw [Buffer.start, h]
  exact BitVec.add_sub_cancel _ _

end

/-! ## What the loop over the chunks maps -/

/-- A byte of a chunk. -/
theorem resolve_chunk {m : VirtualMemory} {a : VAddr} {chunk : Chunk} {j : ℕ} (hm : Disjoint m)
    (h : chunkAt m a = some chunk) (hj : j < chunk.size.toNat) :
    resolveVirtualAddr m (a + BitVec.ofNat 32 j) = some (chunk.addr + BitVec.ofNat 32 j) := by
  unfold chunkAt at h
  split at h
  · cases h
  next e he =>
    cases h
    obtain ⟨hmem, hc⟩ := (resolveBlock_eq_some_iff hm).1 he
    have htop := hm.below_top e hmem
    obtain ⟨hle, hlt⟩ := hc
    have hsize : (e.2.size - (a - e.1)).toNat = e.2.size.toNat - (a.toNat - e.1.toNat) := by
      bv_omega
    simp only [hsize] at hj
    have hj' : Contains e (a + BitVec.ofNat 32 j) := by
      unfold Contains
      bv_omega
    rw [resolveVirtualAddr_eq, resolve_mapped hm hmem hj', target, Option.map_some,
      BitVec.add_assoc]
    congr 2
    bv_omega

/-- `n` bytes of the client from `a` on are mapped at `dest`, where nothing was. -/
structure Image (client server : VirtualMemory) (a dest : VAddr) (n : ℕ) (server' : VirtualMemory) :
    Prop where
  disjoint : Disjoint server'
  fresh : ∀ k < n, resolve server (dest + BitVec.ofNat 32 k) = none
  shared : ∀ k < n, ∃ p, resolveVirtualAddr server' (dest + BitVec.ofNat 32 k) = some p ∧
    resolveVirtualAddr client (a + BitVec.ofNat 32 k) = some p
  frame : ∀ x : VAddr, ¬ (dest.toNat ≤ x.toNat ∧ x.toNat < dest.toNat + n) →
    resolve server' x = resolve server x

section

variable {client server server' : VirtualMemory} {a dest : VAddr} {n j : ℕ} {chunk : Chunk}
  {permissions : MemoryPermissions}

theorem Image.zero (h : Disjoint server) : Image client server a dest 0 server :=
  ⟨h, nofun, nofun, fun _ _ => rfl⟩

/-- A chunk that the server takes. -/
theorem Image.add (h : Image client server a dest n server') (hclient : Disjoint client)
    (hfit : dest.toNat + (n + j) < 2 ^ 32) (hj : 0 < j) (hle : j ≤ chunk.size.toNat)
    (hchunk : chunkAt client (a + BitVec.ofNat 32 n) = some chunk)
    (hok : (Mikage.mapVirtualMemory server' chunk.addr (BitVec.ofNat 32 j)
      (dest + BitVec.ofNat 32 n) permissions).outcome = .ok true) :
    Image client server a dest (n + j) (Mikage.mapVirtualMemory server' chunk.addr
      (BitVec.ofNat 32 j) (dest + BitVec.ofNat 32 n) permissions).memory := by
  have hsize : (BitVec.ofNat 32 j).toNat = j := by
    rw [BitVec.toNat_ofNat]
    exact Nat.mod_eq_of_lt (by omega)
  have hstart : (dest + BitVec.ofNat 32 n).toNat = dest.toNat + n := by
    rw [BitVec.toNat_add, BitVec.toNat_ofNat]
    omega
  have hs : BitVec.ofNat 32 j ≠ 0 := fun hzero => by
    rw [hzero] at hsize
    exact absurd hsize (Nat.ne_of_lt hj)
  have hfit' : (dest + BitVec.ofNat 32 n).toNat + (BitVec.ofNat 32 j).toNat < 2 ^ 32 := by omega
  have hfree : ¬ Rejected server' (BitVec.ofNat 32 j) (dest + BitVec.ofNat 32 n) := by
    intro hrejected
    rw [mapVirtualMemory_rejected h.disjoint hs hrejected] at hok
    cases hok
  rw [mapVirtualMemory_accepted h.disjoint hs hfree]
  have hin (x : VAddr) : InRange (dest + BitVec.ofNat 32 n) (BitVec.ofNat 32 j) x ↔
      dest.toNat + n ≤ x.toNat ∧ x.toNat < dest.toNat + n + j := by
    rw [inRange_iff (Nat.le_of_lt hfit'), hstart, hsize]
  have hat {k : ℕ} (hk : k < n + j) : (dest + BitVec.ofNat 32 k).toNat = dest.toNat + k := by
    rw [BitVec.toNat_add, BitVec.toNat_ofNat]
    omega
  refine ⟨h.disjoint.insert hs hfree hfit', fun k hk => ?_, fun k hk => ?_, fun x hx => ?_⟩
  · by_cases hkn : k < n
    · exact h.fresh k hkn
    · rw [← h.frame _ (by rw [hat hk]; omega), resolve_eq_none_iff h.disjoint]
      rintro e he ⟨h₁, h₂⟩
      rw [hat hk] at h₁ h₂
      rcases apart_of_accepted h.disjoint hfree hfit' he with hapart | hapart <;> omega
  · rw [resolveVirtualAddr_eq, resolve_insert h.disjoint hs hfree hfit']
    by_cases hkn : k < n
    · rw [if_neg (by rw [hin, hat hk]; omega), ← resolveVirtualAddr_eq]
      exact h.shared k hkn
    · rw [if_pos (by rw [hin, hat hk]; omega)]
      obtain ⟨i, rfl⟩ := Nat.exists_eq_add_of_le (Nat.not_lt.1 hkn)
      refine ⟨_, rfl, ?_⟩
      have hi := resolve_chunk hclient hchunk (show i < chunk.size.toNat by omega)
      rw [BitVec.add_assoc, ← BitVec.ofNat_add] at hi
      rw [hi]
      congr 2
      rw [BitVec.ofNat_add]
      bv_omega
  · rw [resolve_insert h.disjoint hs hfree hfit', if_neg (by rw [hin]; omega)]
    exact h.frame x (by omega)

end

/-! ## The calls of the translation -/

section

variable {σ α β : Type} {s : Message σ} {Q : α → Message σ → Prop}
  {E : Exception → Message σ → Prop}

theorem ends_call {x : EStateM Exception σ α} : Ends (call x) s Q E ↔
    Ends x s.system (fun a t => Q a { s with system := t })
      fun e t => E e { s with system := t } := by
  unfold Ends call
  cases x s.system <;> rfl

theorem ends_roundsFrom {body : ℕ → IpcM σ Unit} {n offset stride : ℕ} {P : Message σ → Prop}
    (hs : P s) (h : ∀ i s, P s → Ends (body i) s (fun _ s' => P s') E) :
    Ends (roundsFrom n offset stride body) s (fun _ s' => P s') E := by
  induction n generalizing offset s with
  | zero => exact hs
  | succ n ih => exact (h offset s hs).bind fun _ s' hs' => ih hs'

end

section

variable {other : System Maps Object} {reads : VAddr → Except Exception (BitVec 8)}
  {s s' : Message Maps} {b : Buffer} {addr dest : VAddr} {server : VirtualMemory}
  {permissions : MemoryPermissions}

/-- An exception of the memory that is read. -/
def ReadFault (reads : VAddr → Except Exception (BitVec 8)) (e : Exception) : Prop :=
  ∃ addr, reads addr = .error e

/-- A log message changes neither the maps nor the words. -/
theorem logMemory_ends {n : ℕ} : Ends (logMemory (mapSystem other reads) addr n) s
    (fun _ s' => s'.system = s.system ∧ s'.tls = s.tls) fun e _ => ReadFault reads e := by
  refine ends_roundsFrom (P := fun s' => s'.system = s.system ∧ s'.tls = s.tls) ⟨rfl, rfl⟩ ?_
  intro i s₁ h₁
  have hread : Ends (readMemory (mapSystem other reads) (addr + BitVec.ofNat 32 i)) s₁
      (fun _ s' => s'.system = s.system ∧ s'.tls = s.tls) fun e _ => ReadFault reads e := by
    unfold readMemory record
    rw [ends_modify, ends_call]
    unfold Ends
    simp only [mapSystem]
    cases h : reads (addr + BitVec.ofNat 32 i) with
    | ok byte => exact h₁
    | error e => exact ⟨_, h⟩
  exact hread.bind fun _ _ h => h

theorem mapVirtualMemory_ends {paddr : PAddr} {size : BitVec 32} :
    Ends (call ((mapSystem other reads).mapVirtualMemory paddr size addr permissions)) s
      (fun success s' =>
        (Mikage.mapVirtualMemory s.system.dest paddr size addr permissions).outcome = .ok success ∧
        s'.system.source = s.system.source ∧ s'.system.dest =
          (Mikage.mapVirtualMemory s.system.dest paddr size addr permissions).memory)
      fun _ _ => True := by
  rw [ends_call]
  unfold Ends
  simp only [mapSystem, updated]
  cases (Mikage.mapVirtualMemory s.system.dest paddr size addr permissions).outcome with
  | ok success => exact ⟨rfl, rfl, rfl⟩
  | error e => trivial

/-- The loop maps the pages of the buffer. -/
theorem mapChunks_ends {size mapped : ℕ} (hclient : Disjoint s.system.source)
    (hchunks : WholePages s.system.source (pageOf addr) size) (hfit : dest.toNat + size < 2 ^ 32)
    (hle : mapped ≤ size) (hpage : mapped < size → 4096 ∣ mapped)
    (h : Image s.system.source server (pageOf addr) dest mapped s.system.dest) :
    Ends (mapChunks (mapSystem other reads) permissions addr dest size mapped) s
      (fun _ s' => s'.system.source = s.system.source ∧
        Image s.system.source server (pageOf addr) dest size s'.system.dest) fun _ _ => True := by
  induction hrest : size - mapped using Nat.strongRecOn generalizing mapped s with
  | ind rest ih =>
    rw [mapChunks]
    split
    next hlt =>
      rw [ends_get, show (addr + BitVec.ofNat 32 mapped) &&& ~~~0xfff#32 =
        pageOf addr + BitVec.ofNat 32 mapped from pageOf_add (hpage hlt)]
      split
      next => trivial
      next chunk hchunk =>
        have hpos := chunk.size_pos
        refine mapVirtualMemory_ends.bind ?_
        rintro success s₁ ⟨hok, hsource, hdest⟩
        refine Ends.split (fun _ => trivial) fun hsuccess => ?_
        simp only [Bool.not_eq_true, Bool.not_eq_false'] at hsuccess
        subst hsuccess
        have himage := h.add hclient (by omega) (by omega) (Nat.min_le_left ..) hchunk hok
        rw [← hdest, ← hsource] at himage
        rw [← hsource] at hclient hchunks ⊢
        refine ih _ (by omega) hclient hchunks (by omega) (fun hlt' => ?_) himage rfl
        -- a chunk that is not the last one ends at a page
        rcases hchunks mapped hlt (hpage hlt) chunk (hsource ▸ hchunk) with hdvd | hall
        · rw [Nat.min_eq_left (by omega)]
          exact Nat.dvd_add (hpage hlt) hdvd
        · omega
    next hge =>
      obtain rfl : mapped = size := Nat.le_antisymm hle (Nat.not_lt.1 hge)
      exact ⟨rfl, h⟩

/-! ## One buffer -/

theorem unmapVirtualMemory_ends {size : BitVec 32} (hok : (Mikage.unmapVirtualMemory
    s.system.source addr size).outcome = .ok true) :
    Ends (call ((mapSystem other reads).unmapVirtualMemory addr size)) s
      (fun success s' => success = true ∧ s'.system.dest = s.system.dest ∧ s'.system.source =
        (Mikage.unmapVirtualMemory s.system.source addr size).memory)
      fun e _ => ReadFault reads e := by
  rw [ends_call]
  unfold Ends
  simp only [mapSystem, updated, hok]
  exact ⟨trivial, trivial, trivial⟩

/-- The request in terms of its loop. -/
theorem request_ends {P : VAddr → Maps → Prop} {E : Exception → Message Maps → Prop}
    (haddr : s.tls .source s.tlsOffset = b.addr) (hs : b.size ≠ 0)
    (hnone : Mikage.findAvailableVirtualMemory s.system.dest b.pages 0x10000000 0x20000000 = none →
      ∀ e s', E e s')
    (hsome : ∀ dest,
      Mikage.findAvailableVirtualMemory s.system.dest b.pages 0x10000000 0x20000000 = some dest →
      ∀ s₁ : Message Maps, s₁.system = s.system → Ends (mapChunks (mapSystem other reads)
        (mapPermissions b.descriptor) b.addr dest b.pages.toNat 0) s₁
        (fun _ s' => P dest s'.system) E)
    (hfault : ∀ e s', ReadFault reads e → E e s') :
    Ends (translateMapBuffer (mapSystem other reads) false b.descriptor) s
      (fun _ s' => ∃ dest, Mikage.findAvailableVirtualMemory s.system.dest b.pages 0x10000000
          0x20000000 = some dest ∧ P dest s'.system ∧
        s'.tls .dest s.tlsOffset = dest + (b.addr &&& 0xfff)) E := by
  simp only [translateMapBuffer]
  rw [ends_tlsOffset]
  refine Ends.bind (Q := fun v s₁ => v = b.addr ∧ s₁.system = s.system) ⟨haddr, rfl⟩ ?_
  rintro _ s₁ ⟨rfl, hsystem⟩
  refine Ends.split (fun h => absurd h hs) fun _ => ?_
  simp only [Bool.false_eq_true, if_false]
  rw [ends_get]
  split
  next hfind => exact hnone (hsystem ▸ hfind) _ _
  next dest hfind =>
    have hfind : Mikage.findAvailableVirtualMemory s.system.dest b.pages 0x10000000 0x20000000 =
        some dest := hsystem ▸ hfind
    refine (hsome dest hfind s₁ hsystem).bind fun _ s₂ h₂ => ?_
    let Done (s' : Message Maps) : Prop := s'.system = s₂.system ∧
      s'.tls .dest s.tlsOffset = dest + (b.addr &&& 0xfff)
    have hdone (s' : Message Maps) (h : Done s') : ∃ dest, Mikage.findAvailableVirtualMemory
        s.system.dest b.pages 0x10000000 0x20000000 = some dest ∧ P dest s'.system ∧
        s'.tls .dest s.tlsOffset = dest + (b.addr &&& 0xfff) := ⟨dest, hfind, h.1 ▸ h₂, h.2⟩
    have hadvance (s' : Message Maps) (h : Done s') :
        Done { s' with tlsOffset := s'.tlsOffset + 4 } := h
    refine Ends.bind (Q := fun _ => Done) ⟨rfl, if_pos ⟨rfl, rfl⟩⟩ fun _ s₃ h₃ => ?_
    refine Ends.split (fun _ => ?_) fun _ => hdone _ (hadvance _ h₃)
    refine Ends.bind (logMemory_ends.mono (fun _ _ h => h) hfault) fun _ s₄ h₄ => ?_
    exact hdone _ (hadvance _ ⟨h₄.1.trans h₃.1, by rw [h₄.2]; exact h₃.2⟩)

/-- The reply unmaps the pages, where the delivered address is in the first of them. -/
theorem reply_ends (haddr : s.tls .source s.tlsOffset = b.delivered) (hs : b.size ≠ 0)
    (hok : (Mikage.unmapVirtualMemory s.system.source (pageOf b.delivered)
      (mappedSize b.delivered b.size)).outcome = .ok true) :
    Ends (translateMapBuffer (mapSystem other reads) true b.descriptor) s
      (fun _ s' => s'.system.dest = s.system.dest ∧ s'.system.source =
        (Mikage.unmapVirtualMemory s.system.source (pageOf b.delivered)
          (mappedSize b.delivered b.size)).memory) fun e _ => ReadFault reads e := by
  simp only [translateMapBuffer]
  rw [ends_tlsOffset]
  refine Ends.bind (Q := fun v s₁ => v = b.delivered ∧ s₁.system = s.system) ⟨haddr, rfl⟩ ?_
  rintro _ s₁ ⟨rfl, hsystem⟩
  refine Ends.split (fun h => absurd h hs) fun _ => ?_
  simp only [if_true]
  have hunmap (s₂ : Message Maps) (h₂ : s₂.system = s.system) : Ends (do
      let success ← call ((mapSystem other reads).unmapVirtualMemory (pageOf b.delivered)
        (mappedSize b.delivered b.size))
      if !success then throw (.runtimeError "Couldn't unmap IPC buffer memory")
      writeTLS s.tlsOffset 0
      advance) s₂
      (fun _ s' => s'.system.dest = s.system.dest ∧ s'.system.source =
        (Mikage.unmapVirtualMemory s.system.source (pageOf b.delivered)
          (mappedSize b.delivered b.size)).memory) fun e _ => ReadFault reads e := by
    rw [← h₂] at hok ⊢
    refine (unmapVirtualMemory_ends hok).bind ?_
    rintro _ s₃ ⟨rfl, h₃⟩
    exact h₃
  refine Ends.split (fun _ => ?_) fun _ => hunmap s₁ hsystem
  exact logMemory_ends.bind fun _ s₂ h₂ => hunmap s₂ (h₂.1.trans hsystem)

/-- A buffer of size zero is not mapped, and there is nothing to unmap. -/
theorem translateMapBuffer_zero {isReply : Bool} (hs : b.size = 0) :
    Ends (translateMapBuffer (mapSystem other reads) isReply b.descriptor) s
      (fun _ s' => s'.system = s.system) fun e _ => ReadFault reads e := by
  simp only [translateMapBuffer]
  rw [ends_tlsOffset]
  refine Ends.bind (Q := fun v s₁ => v = s.tls .source s.tlsOffset ∧ s₁.system = s.system)
    ⟨rfl, rfl⟩ ?_
  rintro _ s₁ ⟨rfl, h₁⟩
  exact Ends.split (fun _ => h₁) fun h => absurd hs h

end

end Mikage.IPC
