import T2Bus.Server.Run
import Mathlib.Algebra.GroupWithZero.Nat

/-!
# Ids over a run

The counters are `u32` and wrap. The log tells how many ids were handed out, so as long as there are
fewer than `2 ^ 32` of them every id is used once.

* `idsTaken`, `registrations`: the message ids and the client ids handed out;
* `System.Counted`: the counters, now and at each processed task; every client id comes from a
  registration;
* `Reachable.nextMsgId_inj`, `Reachable.client_inj`, `Reachable.client_ne_zero`.
-/

namespace T2Bus

/-- The number of message ids that the tasks have taken. -/
def idsTaken (log : List Record) : ℕ := (log.map fun r => r.exec.2.out.length).sum

/-- The number of client ids handed out. -/
def registrations (log : List Record) : ℕ := (log.filterMap fun r => r.task.register?).length

theorem idsTaken_append (log log' : List Record) :
    idsTaken (log ++ log') = idsTaken log + idsTaken log' := by simp [idsTaken]

theorem registrations_append (log log' : List Record) :
    registrations (log ++ log') = registrations log + registrations log' := by
  simp [registrations]

theorem idsTaken_singleton (r : Record) : idsTaken [r] = r.exec.2.out.length := by simp [idsTaken]

theorem registrations_singleton (r : Record) :
    registrations [r] = r.task.register?.toList.length := by
  rw [registrations, List.filterMap_cons]
  cases r.task.register? <;> rfl

theorem getElem?_concat_iff {log : List Record} {r r' : Record} {i : ℕ} :
    (log ++ [r])[i]? = some r' ↔ log[i]? = some r' ∨ i = log.length ∧ r = r' := by
  rcases Nat.lt_trichotomy i log.length with h | rfl | h
  · rw [List.getElem?_append_left h]
    exact (or_iff_left fun h' => absurd h'.1 (by omega)).symm
  · simp
  · have h₁ : (log ++ [r])[i]? = none := by simp; omega
    have h₂ : log[i]? = none := by simp; omega
    simp [h₁, h₂]
    omega

theorem lt_of_getElem? {log : List Record} {i : ℕ} {r' : Record} (h : log[i]? = some r') : i < log.length := by
  by_contra hn
  rw [List.getElem?_eq_none (by omega)] at h
  cases h

/-- A longer part of the log contains the task that ends the shorter one. -/
theorem take_eq_append {log : List Record} {i j : ℕ} {r : Record} (h : log[i]? = some r)
    (hij : i < j) : ∃ l, log.take j = log.take i ++ ([r] ++ l) := by
  have hi : log.take (i + 1) = log.take i ++ [r] := by
    rw [List.take_add_one, h]
    rfl
  obtain ⟨l, hl⟩ : log.take (i + 1) <+: log.take j := List.take_prefix_take_left (by omega)
  exact ⟨l, by rw [← List.append_assoc, ← hi, hl]⟩

/-- Ids are handed out one task after the other. -/
theorem idsTaken_take_lt {log : List Record} {i j : ℕ} {r : Record} (h : log[i]? = some r)
    (hout : r.exec.2.out ≠ []) (hij : i < j) : idsTaken (log.take i) < idsTaken (log.take j) := by
  obtain ⟨l, hl⟩ := take_eq_append h hij
  have hpos := List.length_pos_iff.mpr hout
  rw [hl, idsTaken_append, idsTaken_append, idsTaken_singleton]
  omega

theorem registrations_take_lt {log : List Record} {i j : ℕ} {r : Record} {conn : Conn}
    (h : log[i]? = some r) (hr : r.task = .register conn) (hij : i < j) :
    registrations (log.take i) < registrations (log.take j) := by
  obtain ⟨l, hl⟩ := take_eq_append h hij
  rw [hl, registrations_append, registrations_append, registrations_singleton, hr]
  simp only [Task.register?, Option.toList_some, List.length_singleton]
  omega

theorem idsTaken_take_le (log : List Record) (i : ℕ) : idsTaken (log.take i) ≤ idsTaken log := by
  conv_rhs => rw [← List.take_append_drop i log, idsTaken_append]
  exact Nat.le_add_right _ _

namespace Record

variable (r : Record)

theorem exec_nextMsgId :
    r.exec.2.core.nextMsgId = r.core.nextMsgId + UInt32.ofNat r.exec.2.out.length := by
  obtain ⟨acks, heq, -⟩ := Exec.processTask_eq r.env r.task r.core
  have hown : (r.core.ownTask r.env r.task).nextMsgId = r.core.nextMsgId := by
    cases r.task with
    | message c msg => exact Core.own_nextMsgId c msg
    | requestTimeout k => exact Core.own_nextMsgId 0 _
    | _ => rfl
  rw [exec, heq, Exec.deliverList, Exec.ownExec, Core.deliverAll_nextMsgId, hown]
  simp

theorem exec_nextClientId : r.exec.2.core.nextClientId =
    r.core.nextClientId + UInt32.ofNat r.task.register?.toList.length := by
  obtain ⟨acks, heq, -⟩ := Exec.processTask_eq r.env r.task r.core
  rw [exec, heq, Exec.deliverList, Exec.ownExec, Core.deliverAll_nextClientId]
  cases r.task with
  | register conn => rfl
  | deregister d => simp [Core.ownTask, Core.deregisterClient, Task.register?]
  | message c msg => simp [Core.ownTask, Core.own_nextClientId, Task.register?]
  | requestTimeout k => simp [Core.ownTask, Core.own_nextClientId, Task.register?]

end Record

namespace System

variable {s s' : System} {act : Act}

/-- The counters count what was handed out, and a client's id comes from its registration. -/
structure Counted (s : System) : Prop where
  msgId : s.core.nextMsgId = UInt32.ofNat (idsTaken s.log)
  clientId : s.core.nextClientId = UInt32.ofNat (registrations s.log + 1)
  past : ∀ (i : ℕ) (r : Record), s.log[i]? = some r →
    r.core.nextMsgId = UInt32.ofNat (idsTaken (s.log.take i)) ∧
      r.core.nextClientId = UInt32.ofNat (registrations (s.log.take i) + 1)
  client : ∀ conn c, (s.stubs conn).client? = some c →
    ∃ (i : ℕ) (r : Record), s.log[i]? = some r ∧ r.task = .register conn ∧ r.core.nextClientId = c
  queued : ∀ c msg, .message c msg ∈ s.tasks → ∃ conn, (s.stubs conn).client? = some c
  processed : ∀ r ∈ s.log, ∀ c msg, r.task = .message c msg →
    ∃ conn, (s.stubs conn).client? = some c

theorem counted_init : Counted init where
  msgId := rfl
  clientId := rfl
  past := by simp [init]
  client := by simp [init, Stub.client?]
  queued := by simp [init]
  processed := by simp [init]

theorem Counted.step (hi : Counted s) (hconns : Conns s) (h : s.step act = some s') :
    Counted s' := by
  obtain ⟨-, hq | ⟨order, task, tasks, ht, rfl⟩⟩ := quiet_or_processed h
  · refine ⟨hq.core ▸ hq.log ▸ hi.msgId, hq.core ▸ hq.log ▸ hi.clientId, hq.log ▸ hi.past,
      fun conn c hc => ?_, fun c msg hm => ?_, fun r hr c msg hm => ?_⟩
    · rw [hq.client] at hc
      exact hq.log ▸ hi.client conn c hc
    · simp only [hq.client]
      rcases hq.tasks with ht | ⟨task, ht, htask⟩
      · exact hi.queued c msg (ht ▸ hm)
      · rw [ht, List.mem_append, List.mem_singleton] at hm
        rcases hm with hm | rfl
        · exact hi.queued c msg hm
        · obtain ⟨conn, hs⟩ := htask.2
          exact ⟨conn, by rw [hs]; rfl⟩
    · simp only [hq.client]
      exact hi.processed r (hq.log ▸ hr) c msg hm
  · have hold : ∀ c, (∃ conn, (s.stubs conn).client? = some c) →
        ∃ conn, ((s.processed tasks (s.record order task)).stubs conn).client? = some c :=
      fun c ⟨conn, hc⟩ => ⟨conn, hconns.client_processed order ht hc⟩
    refine ⟨?_, ?_, fun i r hr => ?_, fun conn c hc => ?_, fun c msg hm => ?_,
      fun r hr c msg hm => ?_⟩
    · change (s.record order task).exec.2.core.nextMsgId = _
      rw [Record.exec_nextMsgId, System.processed, idsTaken_append, idsTaken_singleton, UInt32.ofNat_add,
        ← hi.msgId]
      rfl
    · change (s.record order task).exec.2.core.nextClientId = _
      rw [Record.exec_nextClientId, System.processed, registrations_append, registrations_singleton,
        Nat.add_right_comm, UInt32.ofNat_add, ← hi.clientId]
      rfl
    · rcases getElem?_concat_iff.mp hr with hr | ⟨rfl, rfl⟩
      · rw [System.processed, List.take_append_of_le_length (lt_of_getElem? hr).le]
        exact hi.past i r hr
      · rw [System.processed, List.take_left]
        exact ⟨hi.msgId, hi.clientId⟩
    · rw [processed_stubs] at hc
      split_ifs at hc with hr
      · exact ⟨s.log.length, s.record order task, getElem?_concat_iff.mpr (Or.inr ⟨rfl, rfl⟩), hr,
          Option.some.inj hc⟩
      · obtain ⟨i, r, hlog, hr⟩ := hi.client conn c hc
        exact ⟨i, r, getElem?_concat_iff.mpr (Or.inl hlog), hr⟩
    · exact hold c (hi.queued c msg (by rw [ht]; exact List.mem_cons_of_mem _ hm))
    · rcases List.mem_append.mp hr with hr | hr
      · exact hold c (hi.processed r hr c msg hm)
      · cases List.mem_singleton.mp hr
        exact hold c (hi.queued c msg (by
          rw [ht, show task = _ from hm]
          exact List.mem_cons_self))

theorem Reachable.counted (h : Reachable s) : Counted s :=
  Lts.Reachable.induct counted_init
    (fun _ _ _ hr hi hs => hi.step (Reachable.conns hr) hs) h

/-! ## Fresh ids -/

theorem ofNat_inj {a b : ℕ} (ha : a < 2 ^ 32) (hb : b < 2 ^ 32)
    (h : UInt32.ofNat a = UInt32.ofNat b) : a = b := by
  have h := congrArg UInt32.toNat h
  rwa [UInt32.toNat_ofNat', UInt32.toNat_ofNat', Nat.mod_eq_of_lt ha, Nat.mod_eq_of_lt hb] at h

/-- **Two tasks that take message ids start at different ones.** -/
theorem Reachable.nextMsgId_inj (h : Reachable s) (hids : idsTaken s.log < 2 ^ 32) {i j : ℕ}
    {r r' : Record} (hi : s.log[i]? = some r) (hj : s.log[j]? = some r')
    (hout : r.exec.2.out ≠ []) (hout' : r'.exec.2.out ≠ [])
    (heq : r.core.nextMsgId = r'.core.nextMsgId) : i = j := by
  rw [(h.counted.past i r hi).1, (h.counted.past j r' hj).1] at heq
  have heq := ofNat_inj (Nat.lt_of_le_of_lt (idsTaken_take_le _ _) hids)
    (Nat.lt_of_le_of_lt (idsTaken_take_le _ _) hids) heq
  rcases Nat.lt_trichotomy i j with hlt | rfl | hlt
  · exact absurd heq (idsTaken_take_lt hi hout hlt).ne
  · rfl
  · exact absurd heq.symm (idsTaken_take_lt hj hout' hlt).ne

/-- **Two connections never share a client id.** -/
theorem Reachable.client_inj (h : Reachable s) (hreg : registrations s.log < 2 ^ 32)
    {conn conn' : Conn} {c : ClientId} (hc : (s.stubs conn).client? = some c)
    (hc' : (s.stubs conn').client? = some c) : conn = conn' := by
  obtain ⟨i, r, hi, hr, hid⟩ := h.counted.client conn c hc
  obtain ⟨j, r', hj, hr', hid'⟩ := h.counted.client conn' c hc'
  have hlt : ∀ {i r conn}, s.log[i]? = some r → r.task = .register conn →
      registrations (s.log.take i) + 1 < 2 ^ 32 := by
    intro i r conn hi hr
    have := registrations_take_lt hi hr (lt_of_getElem? hi)
    rw [List.take_length] at this
    omega
  have heq : r.core.nextClientId = r'.core.nextClientId := hid.trans hid'.symm
  rw [(h.counted.past i r hi).2, (h.counted.past j r' hj).2] at heq
  have heq := ofNat_inj (hlt hi hr) (hlt hj hr') heq
  have hij : i = j := by
    rcases Nat.lt_trichotomy i j with hij | hij | hij
    · have := registrations_take_lt hi hr hij
      omega
    · exact hij
    · have := registrations_take_lt hj hr' hij
      omega
  subst hij
  cases hi.symm.trans hj
  cases hr.symm.trans hr'
  rfl

/-- **No client has id 0.** -/
theorem Reachable.client_ne_zero (h : Reachable s) (hreg : registrations s.log < 2 ^ 32)
    {conn : Conn} {c : ClientId} (hc : (s.stubs conn).client? = some c) : c ≠ 0 := by
  obtain ⟨i, r, hi, hr, hid⟩ := h.counted.client conn c hc
  have hlt := registrations_take_lt hi hr (lt_of_getElem? hi)
  rw [List.take_length] at hlt
  rintro rfl
  rw [(h.counted.past i r hi).2] at hid
  exact absurd (ofNat_inj (by omega) (by decide) hid) (Nat.succ_ne_zero _)

end System

end T2Bus
