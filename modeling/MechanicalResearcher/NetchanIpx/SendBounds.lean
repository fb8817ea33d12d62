import MechanicalResearcher.Lib.Accesses
import MechanicalResearcher.NetchanIpx.Netchan

/-!
# What `nc_send_next` writes

The stores of `nc_send_next` into the buffer of its caller, in the order of the code.  The
records of a DATA packet are each tested against the room that is left; a packet that carries
the local id is written without such a test, so it needs twelve bytes where the test at the
top asks for eight.
-/

namespace MechanicalResearcher.NetchanIpx

open Lib

/-- A store of `len` bytes at `b + offset`. -/
structure BufStore where
  offset : Nat
  len : Nat
  deriving DecidableEq, Repr

def BufStore.InBuffer (buflen : Nat) (s : BufStore) : Prop := s.offset + s.len ≤ buflen

instance (buflen : Nat) (s : BufStore) : Decidable (s.InBuffer buflen) :=
  inferInstanceAs (Decidable (_ ≤ _))

def headerStores : List BufStore := [⟨0, 4⟩, ⟨4, 1⟩, ⟨5, 1⟩, ⟨6, 2⟩]

/-- A SYN or SYNACK: the local id stands behind the header. -/
def helloStores : List BufStore := headerStores ++ [⟨ncHdr, 4⟩]

/-- A record of `len` bytes at `w = b + pos`. -/
def recordStores (pos len : Nat) : List BufStore :=
  [⟨pos, 1⟩, ⟨pos + 1, 1⟩, ⟨pos + 2, 2⟩, ⟨pos + 4, 2⟩, ⟨pos + ncRec, len⟩]

def sendRelStores (cap : Nat) : Nat → Netchan → Nat → List BufStore
  | 0, _, _ => []
  | n + 1, c, pos =>
    if c.txUnsent = c.txNext then []
    else
      let s := c.txw (c.txUnsent.toNat % ncWindow)
      if pos + (ncRec + s.data.length) > cap then []
      else
        recordStores pos s.data.length ++
          sendRelStores cap n { c with txUnsent := c.txUnsent + 1 }
            (pos + (ncRec + s.data.length))

def sendUnrelStores (cap : Nat) : Nat → Netchan → Nat → List BufStore
  | 0, _, _ => []
  | n + 1, c, pos =>
    if c.txuCount = 0 then []
    else
      let m := c.txu c.txuHead
      if pos + (ncRec + m.length) > cap then []
      else
        recordStores pos m.length ++
          sendUnrelStores cap n
            { c with txuHead := (c.txuHead + 1) % ncUnrelTxq, txuCount := c.txuCount - 1 }
            (pos + (ncRec + m.length))

/-- The header of a DATA packet is written last. -/
def sendDataStores (c : Netchan) (cap : Nat) : List BufStore :=
  let turns := (c.txNext - c.txUnsent).toNat
  let (c', w) := sendRelLoop cap turns c []
  let c' := armTimer c'
  sendRelStores cap turns c ncHdr ++
    sendUnrelStores cap c'.txuCount c' (ncHdr + w.length) ++ headerStores

def sendNextStores (c : Netchan) (buflen : Nat) : List BufStore :=
  if buflen < ncHdr then []
  else if c.sendSynack then helloStores
  else if c.sendAck then headerStores
  else if c.sendSyn then helloStores
  else if c.state ≠ .connected then []
  else if c.txUnsent = c.txNext ∧ c.txuCount = 0 ∧ c.ackPending = false then []
  else sendDataStores c (min buflen ncMtu)

variable {cap buflen : Nat}

theorem length_header (remoteId : UInt32) (type : UInt8) (ack : UInt16) :
    (header remoteId type ack).length = ncHdr := rfl

theorem length_record (chan mt : UInt8) (seq : UInt16) (data : Bytes) :
    (record chan mt seq data).length = ncRec + data.length := by
  simp only [record, List.length_append, Lib.BigEndian.length_wr16, List.length_cons,
    List.length_nil]

theorem recordStores_in {pos len : Nat} (h : pos + (ncRec + len) ≤ cap) :
    Safe (BufStore.InBuffer cap) (recordStores pos len) := by
  have hrec : ncRec = 6 := rfl
  have hstore : ∀ offset n, offset + n ≤ cap → BufStore.InBuffer cap ⟨offset, n⟩ :=
    fun _ _ h => h
  exact .cons (hstore _ _ (by omega)) (.cons (hstore _ _ (by omega))
    (.cons (hstore _ _ (by omega)) (.cons (hstore _ _ (by omega))
      (.cons (hstore _ _ (by omega)) .nil))))

theorem sendRel_in (n : Nat) (c : Netchan) (w : Bytes) (h : ncHdr + w.length ≤ cap) :
    ncHdr + (sendRelLoop cap n c w).2.length ≤ cap ∧
      Safe (BufStore.InBuffer cap) (sendRelStores cap n c (ncHdr + w.length)) := by
  induction n generalizing c w with
  | zero => exact ⟨h, .nil⟩
  | succ n ih =>
    unfold sendRelLoop sendRelStores
    by_cases hdone : c.txUnsent = c.txNext
    · rw [if_pos hdone, if_pos hdone]
      exact ⟨h, .nil⟩
    · rw [if_neg hdone, if_neg hdone]
      dsimp only
      generalize c.txw (c.txUnsent.toNat % ncWindow) = s
      by_cases hfull : ncHdr + w.length + (ncRec + s.data.length) > cap
      · rw [if_pos hfull, if_pos hfull]
        exact ⟨h, .nil⟩
      · rw [if_neg hfull, if_neg hfull]
        have hlen : ncHdr + (w ++ record s.chan mtRel s.seq s.data).length =
            ncHdr + w.length + (ncRec + s.data.length) := by
          rw [List.length_append, length_record]
          omega
        have hrest := ih { c with txUnsent := c.txUnsent + 1 }
          (w ++ record s.chan mtRel s.seq s.data) (by omega)
        rw [hlen] at hrest
        exact ⟨hrest.1, (recordStores_in (Nat.not_lt.mp hfull)).append hrest.2⟩

theorem sendUnrel_in (n : Nat) (c : Netchan) (w : Bytes) (h : ncHdr + w.length ≤ cap) :
    ncHdr + (sendUnrelLoop cap n c w).2.length ≤ cap ∧
      Safe (BufStore.InBuffer cap) (sendUnrelStores cap n c (ncHdr + w.length)) := by
  induction n generalizing c w with
  | zero => exact ⟨h, .nil⟩
  | succ n ih =>
    unfold sendUnrelLoop sendUnrelStores
    by_cases hdone : c.txuCount = 0
    · rw [if_pos hdone, if_pos hdone]
      exact ⟨h, .nil⟩
    · rw [if_neg hdone, if_neg hdone]
      dsimp only
      generalize c.txu c.txuHead = m
      by_cases hfull : ncHdr + w.length + (ncRec + m.length) > cap
      · rw [if_pos hfull, if_pos hfull]
        exact ⟨h, .nil⟩
      · rw [if_neg hfull, if_neg hfull]
        have hlen : ncHdr + (w ++ record (c.txuChan c.txuHead) mtUnrel 0 m).length =
            ncHdr + w.length + (ncRec + m.length) := by
          rw [List.length_append, length_record]
          omega
        have hrest := ih
          { c with txuHead := (c.txuHead + 1) % ncUnrelTxq, txuCount := c.txuCount - 1 }
          (w ++ record (c.txuChan c.txuHead) mtUnrel 0 m) (by omega)
        rw [hlen] at hrest
        exact ⟨hrest.1, (recordStores_in (Nat.not_lt.mp hfull)).append hrest.2⟩

theorem headerStores_in (h : ncHdr ≤ cap) : Safe (BufStore.InBuffer cap) headerStores := by
  have hall : ∀ s ∈ headerStores, s.InBuffer ncHdr := by decide
  exact fun s hs => (hall s hs).trans h

theorem sendData_in (c : Netchan) (h : ncHdr ≤ cap) :
    (sendData c cap).2.length ≤ cap ∧
      Safe (BufStore.InBuffer cap) (sendDataStores c cap) := by
  have hrel := @sendRel_in cap (c.txNext - c.txUnsent).toNat c [] h
  unfold sendData sendDataStores
  dsimp only
  generalize sendRelLoop cap (c.txNext - c.txUnsent).toNat c [] = r at hrel ⊢
  obtain ⟨c1, w⟩ := r
  have hunrel := sendUnrel_in (armTimer c1).txuCount (armTimer c1) w hrel.1
  rw [List.length_append, length_header]
  exact ⟨hunrel.1, (hrel.2.append hunrel.2).append (headerStores_in h)⟩

/-- The next packet carries the local id: a SYNACK, or a SYN that no ACK comes before. -/
def Netchan.SaysHello (c : Netchan) : Prop :=
  c.sendSynack = true ∨ (c.sendAck = false ∧ c.sendSyn = true)

/-- The value returned and every index written are within the buffer. -/
structure SendBounded (c : Netchan) (buflen : Nat) : Prop where
  returned : ∀ pkt addr, (ncSendNext c buflen).2 = some (pkt, addr) → pkt.length ≤ buflen
  written : Safe (BufStore.InBuffer buflen) (sendNextStores c buflen)

theorem helloStores_in_iff : Safe (BufStore.InBuffer buflen) helloStores ↔ ncHdr + 4 ≤ buflen := by
  constructor
  · intro h
    exact h ⟨ncHdr, 4⟩ (by decide)
  · intro h
    have hall : ∀ s ∈ helloStores, s.InBuffer (ncHdr + 4) := by decide
    exact fun s hs => (hall s hs).trans h

/-- `nc_send_next` stays in the buffer exactly when it sends no local id into a buffer of 8
to 11 bytes. -/
theorem sendNext_bounded_iff (c : Netchan) (buflen : Nat) :
    SendBounded c buflen ↔ buflen < ncHdr ∨ ncHdr + 4 ≤ buflen ∨ ¬c.SaysHello := by
  by_cases hsmall : buflen < ncHdr
  · have hnone : ncSendNext c buflen = (c, none) := by rw [ncSendNext, if_pos hsmall]
    have hstores : sendNextStores c buflen = [] := by rw [sendNextStores, if_pos hsmall]
    refine iff_of_true ⟨fun pkt addr h => ?_, hstores ▸ .nil⟩ (.inl hsmall)
    rw [hnone] at h
    cases h
  · have hhdr := Nat.not_lt.mp hsmall
    rw [or_iff_right hsmall]
    by_cases hhello : c.SaysHello
    · -- twelve bytes are written whatever the buffer holds
      rw [or_iff_left (not_not_intro hhello), ← helloStores_in_iff]
      have hstores : sendNextStores c buflen = helloStores := by
        rw [sendNextStores, if_neg hsmall]
        rcases hhello with hsynack | ⟨hack, hsyn⟩
        · rw [if_pos hsynack]
        · by_cases hsynack : c.sendSynack = true
          · rw [if_pos hsynack]
          · rw [if_neg hsynack, if_neg (by rw [hack]; decide), if_pos hsyn]
      have hlen : ∀ pkt addr, (ncSendNext c buflen).2 = some (pkt, addr) →
          pkt.length = ncHdr + 4 := by
        intro pkt addr h
        rw [ncSendNext, if_neg hsmall] at h
        rcases hhello with hsynack | ⟨hack, hsyn⟩
        · rw [if_pos hsynack] at h
          cases h
          rfl
        · by_cases hsynack : c.sendSynack = true
          · rw [if_pos hsynack] at h
            cases h
            rfl
          · rw [if_neg hsynack, if_neg (by rw [hack]; decide), if_pos hsyn] at h
            cases h
            rfl
      constructor
      · intro h
        exact hstores ▸ h.written
      · intro h
        refine ⟨fun pkt addr hpkt => ?_, hstores ▸ h⟩
        rw [hlen pkt addr hpkt]
        exact helloStores_in_iff.mp h
    · refine iff_of_true ?_ (.inr hhello)
      rw [Netchan.SaysHello, not_or, not_and] at hhello
      obtain ⟨hsynack, hsyn⟩ := hhello
      have hcap : ncHdr ≤ min buflen ncMtu := le_min hhdr (by decide)
      have hdata := sendData_in c hcap
      have hle : min buflen ncMtu ≤ buflen := Nat.min_le_left _ _
      constructor
      · intro pkt addr h
        rw [ncSendNext, if_neg hsmall, if_neg hsynack] at h
        split_ifs at h with hack hsyn' hst hidle
        · cases h
          exact hhdr
        · exact absurd hsyn' (hsyn (by simpa using hack))
        · cases h
          exact hdata.1.trans hle
      · rw [sendNextStores, if_neg hsmall, if_neg hsynack]
        split_ifs with hack hsyn' hst hidle
        · exact headerStores_in hhdr
        · exact absurd hsyn' (hsyn (by simpa using hack))
        · exact .nil
        · exact .nil
        · exact fun s hs => (hdata.2 s hs).trans hle

/-- A client that was told to connect writes twelve bytes into a buffer of eight. -/
theorem syn_overflows :
    ¬∀ (acts : List Act) (buflen : Nat),
      SendBounded (acts.foldl Netchan.step (ncOpen false 1 2)) buflen := by
  intro h
  have hbound := (h [.connect (some Addr.unset)] 8).written ⟨ncHdr, 4⟩ (by decide +kernel)
  exact absurd hbound (by decide)

end MechanicalResearcher.NetchanIpx
