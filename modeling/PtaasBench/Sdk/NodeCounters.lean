import PtaasBench.Sdk.NodeFlush

/-!
# PtaasBench.Sdk.NodeCounters — the counters of the Node exporter over a run (`transport.ts`)

Beside the exporter, books say by number which events were counted as sent and as failed, and which were in
the body of a request that was answered with success.
-/

namespace PtaasBench.Sdk.NodeTransport

open Lib List

section Books

variable {ρ : Type*}

/-- What `JSON.stringify` can write: the body for a batch, one event. -/
structure Stringify (ρ : Type*) where
  batch : List (TelemetryEvent ρ) → Bool
  event : TelemetryEvent ρ → Bool

variable (cfg : ResolvedConfig) (json : Stringify ρ)

/-- `serializeBatch`: the events that the body has. -/
def serializeBatch (batch : List (TelemetryEvent ρ)) : Option (List (TelemetryEvent ρ)) :=
  if json.batch batch then some batch
  else
    let serialisable := batch.filter json.event
    if json.batch serialisable then some serialisable else none

def serializes (batch : List (TelemetryEvent ρ)) : Bool := (serializeBatch json batch).isSome

/-- A batch gets a request of its own. -/
def sendable (batch : List (TelemetryEvent ρ)) : Bool := cfg.endpoint.isSome && serializes json batch

def numbers (l : List (TelemetryEvent ρ)) : List ℕ := (events l).map Tagged.number

structure Books where
  sent : List ℕ := []
  failed : List ℕ := []
  /-- In the body of a request that was answered with success. -/
  acknowledged : List ℕ := []

/-- Where the exporter is when an operation comes to call `flush`. -/
def flushedAt (t : Transport ρ) : Op ρ → Option (Transport ρ)
  | .enqueue body =>
    if t.closed then none
    else if cfg.batchSize.le (push cfg t body).queue.length then some (push cfg t body) else none
  | .tick => if t.timer then some { t with timer := false } else none
  | .flush => some t
  | .shutdown => some { t with closed := true, timer := false }
  | .settle _ _ => none

/-- The batches that `flush` fails at once. -/
def unposted (t : Transport ρ) : List (List (TelemetryEvent ρ)) :=
  let queue := (report cfg t).queue
  ((cut cfg queue.length queue).getD []).filter fun batch => !sendable cfg json batch

/-- What an operation writes into the books. -/
def enter (t : Transport ρ) (b : Books) (op : Op ρ) : Books :=
  if t.hung then b
  else
    match op with
    | .settle k ok =>
      match t.posts[k]? with
      | none => b
      | some batch =>
        if ok && cfg.fetches then
          { b with
            sent := b.sent ++ numbers batch
            acknowledged := b.acknowledged ++ numbers ((serializeBatch json batch).getD []) }
        else { b with failed := b.failed ++ numbers batch }
    | op =>
      match flushedAt cfg t op with
      | none => b
      | some t => { b with failed := b.failed ++ numbers (unposted cfg json t).flatten }

structure Audit (ρ : Type*) where
  transport : Transport ρ := {}
  books : Books := {}

def auditStep (a : Audit ρ) (op : Op ρ) : Audit ρ where
  transport := step cfg (serializes json) a.transport op
  books := enter cfg json a.transport a.books op

abbrev audit (ops : List (Op ρ)) : Audit ρ := Lib.run (auditStep cfg json) {} ops

/-- An operation that keeps the counters right: nothing is counted as discarded from an empty queue, no note is
put in front of the queue, and a request that is answered with success has its whole batch in the body. -/
def honest (a : Audit ρ) (op : Op ρ) : Bool :=
  ((flushedAt cfg a.transport op).all fun t => !noteDue cfg t) &&
    match op with
    | .enqueue _ => a.transport.closed || !(full cfg a.transport && a.transport.queue.isEmpty)
    | .settle k ok => !(ok && cfg.fetches) || (a.transport.posts[k]?).all json.batch
    | _ => true

/-- Nothing is queued or in flight. -/
def Quiet (t : Transport ρ) : Prop := t.queue = [] ∧ t.posts = []

/-- The counters add up, each accepted event is in one of them, and what is counted as sent was acknowledged. -/
structure Reconciled (a : Audit ρ) : Prop where
  sum : a.transport.enqueued = a.transport.sent + a.transport.failed + a.transport.discarded
  accepted : a.transport.enqueued = a.transport.arrived.length
  sent : a.transport.sent = a.books.sent.length
  failed : a.transport.failed = a.books.failed.length
  discarded : a.transport.discarded = a.transport.evictions.length
  distinct : (a.transport.arrived.map Tagged.number).Nodup
  one : (a.transport.arrived.map Tagged.number).Perm
    (a.books.sent ++ a.books.failed ++ a.transport.evictions.map fun e => e.entry.number)
  acknowledged : ∀ n ∈ a.books.sent, n ∈ a.books.acknowledged

end Books

/-! ## Batches without notes -/

section Plain

variable {ρ : Type*} {cfg : ResolvedConfig} {json : Stringify ρ}

def Plain (l : List (TelemetryEvent ρ)) : Prop := ∀ x ∈ l, ∃ r, x = .event r

theorem Plain.append {l l' : List (TelemetryEvent ρ)} (h : Plain l) (h' : Plain l') : Plain (l ++ l') := by
  intro x hx
  rcases mem_append.mp hx with hx | hx
  · exact h x hx
  · exact h' x hx

theorem numbers_append (l l' : List (TelemetryEvent ρ)) : numbers (l ++ l') = numbers l ++ numbers l' := by
  rw [numbers, events_append, map_append, numbers, numbers]

theorem length_numbers {l : List (TelemetryEvent ρ)} (h : Plain l) : (numbers l).length = l.length := by
  induction l with
  | nil => rfl
  | cons x l ih =>
    obtain ⟨r, rfl⟩ := h x mem_cons_self
    exact congrArg (· + 1) (ih fun y hy => h y (mem_cons_of_mem _ hy))

/-- The numbers of some batches, those with a property apart. -/
theorem count_numbers_flatten (p : List (TelemetryEvent ρ) → Bool) (batches : List (List (TelemetryEvent ρ)))
    (n : ℕ) : (numbers batches.flatten).count n =
      total (fun batch => (numbers batch).count n) (batches.filter p) +
        (numbers (batches.filter fun batch => !p batch).flatten).count n := by
  induction batches with
  | nil => rfl
  | cons batch batches ih =>
    rw [flatten_cons, numbers_append, count_append, ih]
    cases hp : p batch with
    | true =>
      rw [filter_cons_of_pos hp, filter_cons_of_neg (by rw [hp]; exact Bool.false_ne_true)]
      rw [← singleton_append, total_append, total_singleton, add_assoc]
    | false =>
      rw [filter_cons_of_neg (by rw [hp]; exact Bool.false_ne_true),
        filter_cons_of_pos (by rw [hp]; rfl), flatten_cons, numbers_append, count_append]
      omega

/-- What is posted in one go: a batch gets a request, or fails. -/
theorem postAll_eq (batches : List (List (TelemetryEvent ρ))) (t : Transport ρ) :
    postAll cfg (serializes json) batches t =
      { t with
        batches := t.batches + batches.length
        posted := t.posted ++ events batches.flatten
        posts := t.posts ++ batches.filter (sendable cfg json)
        failed := t.failed + (batches.filter fun batch => !sendable cfg json batch).flatten.length } := by
  induction batches generalizing t with
  | nil =>
    rw [postAll, foldl_nil, filter_nil, filter_nil, append_nil]
    simp [events]
  | cons batch batches ih =>
    have hstep : postAll cfg (serializes json) (batch :: batches) t =
        postAll cfg (serializes json) batches (post cfg (serializes json) batch t) := rfl
    rw [hstep, ih]
    cases hsend : sendable cfg json batch with
    | true =>
      have hpost : post cfg (serializes json) batch t =
          { t with batches := t.batches + 1, posted := t.posted ++ events batch, posts := t.posts ++ [batch] } :=
        if_pos hsend
      have hkept : (batch :: batches).filter (sendable cfg json) = batch :: batches.filter (sendable cfg json) :=
        filter_cons_of_pos hsend
      have hfailed : ((batch :: batches).filter fun batch => !sendable cfg json batch) =
          batches.filter fun batch => !sendable cfg json batch :=
        filter_cons_of_neg (by rw [hsend]; exact Bool.false_ne_true)
      rw [hpost, hkept, hfailed]
      simp [events_append, Nat.add_assoc, Nat.add_comm 1]
    | false =>
      have hpost : post cfg (serializes json) batch t =
          { t with batches := t.batches + 1, posted := t.posted ++ events batch, failed := t.failed + batch.length } :=
        if_neg (by rw [← sendable, hsend]; exact Bool.false_ne_true)
      have hkept : (batch :: batches).filter (sendable cfg json) = batches.filter (sendable cfg json) :=
        filter_cons_of_neg (by rw [hsend]; exact Bool.false_ne_true)
      have hfailed : ((batch :: batches).filter fun batch => !sendable cfg json batch) =
          batch :: batches.filter fun batch => !sendable cfg json batch :=
        filter_cons_of_pos (by rw [hsend]; rfl)
      rw [hpost, hkept, hfailed]
      simp [events_append, Nat.add_assoc, Nat.add_comm 1]

end Plain

/-! ## Honest operations -/

section Kept

variable {ρ : Type*} {cfg : ResolvedConfig} {json : Stringify ρ}

/-- Every accepted event is in one place, and the counters count what the books name. -/
structure Kept (t : Transport ρ) (b : Books) : Prop where
  plain : Plain t.queue
  plainPosts : ∀ batch ∈ t.posts, Plain batch
  place : ∀ n, (t.arrived.map Tagged.number).count n =
    b.sent.count n + b.failed.count n + (t.evictions.map fun e => e.entry.number).count n +
      total (fun batch => (numbers batch).count n) t.posts + (numbers t.queue).count n
  accepted : t.enqueued = t.arrived.length
  sent : t.sent = b.sent.length
  failed : t.failed = b.failed.length
  discarded : t.discarded = t.evictions.length
  fresh : ∀ r ∈ t.arrived, r.number < t.calls
  distinct : (t.arrived.map Tagged.number).Nodup
  acknowledged : ∀ n ∈ b.sent, n ∈ b.acknowledged

/-- Without room for an event in a batch the loop changes nothing. -/
theorem drain_hangs {serializes : List (TelemetryEvent ρ) → Bool} (hbatch : ¬ Number.Fits 1 cfg.batchSize) (fuel : ℕ)
    (t : Transport ρ) : ∃ hung, drain cfg serializes fuel t = { t with hung := hung } := by
  cases fuel with
  | zero => exact ⟨t.hung, rfl⟩
  | succ fuel =>
    rw [drain, Number.deleteCount_eq_zero hbatch]
    by_cases hempty : t.queue = []
    · exact ⟨t.hung, if_pos hempty⟩
    · exact ⟨true, (if_neg hempty).trans (if_pos rfl)⟩

theorem Kept.flushed {t : Transport ρ} {b : Books} (h : Kept t b) (hnote : noteDue cfg t = false) :
    Kept (flush cfg (serializes json) t)
      { b with failed := b.failed ++ numbers (unposted cfg json t).flatten } := by
  have hreport : report cfg t = t := if_neg (by rw [hnote]; exact Bool.false_ne_true)
  by_cases hbatch : Number.Fits 1 cfg.batchSize
  · obtain ⟨batches, hcut, hflat, -, hdrain⟩ :=
      @cut_batches _ cfg (serializes json) hbatch _ _ (le_refl t.queue.length)
    have hunposted : unposted cfg json t = batches.filter fun batch => !sendable cfg json batch := by
      rw [unposted, hreport, hcut, Option.getD_some]
    have hplain : ∀ batch ∈ batches, Plain batch := by
      intro batch hmem x hx
      exact h.plain x (hflat ▸ mem_flatten.mpr ⟨batch, hmem, hx⟩)
    have hfailed : Plain (batches.filter fun batch => !sendable cfg json batch).flatten := by
      intro x hx
      obtain ⟨batch, hmem, hx⟩ := mem_flatten.mp hx
      exact hplain batch (mem_of_mem_filter hmem) x hx
    rw [flush, hreport, hdrain, postAll_eq, hunposted]
    refine ⟨fun _ hx => absurd hx not_mem_nil, fun batch hmem => ?_, fun n => ?_, h.accepted, h.sent, ?_,
      h.discarded, h.fresh, h.distinct, h.acknowledged⟩
    · rcases mem_append.mp hmem with hmem | hmem
      · exact h.plainPosts batch hmem
      · exact hplain batch (mem_of_mem_filter hmem)
    · have hplace := h.place n
      have hcount := count_numbers_flatten (sendable cfg json) batches n
      rw [hflat] at hcount
      have hnil : (numbers ([] : List (TelemetryEvent ρ))).count n = 0 := rfl
      dsimp only
      rw [count_append, total_append, hnil]
      omega
    · dsimp only
      rw [length_append, length_numbers hfailed, h.failed]
  · have hnone : unposted cfg json t = [] := by
      rw [unposted, hreport]
      by_cases hqueue : t.queue = []
      · rw [hqueue]
        rfl
      · rw [cut_stuck hbatch hqueue]
        rfl
    obtain ⟨hung, hdrain⟩ := @drain_hangs _ cfg (serializes json) hbatch t.queue.length t
    have hflush : flush cfg (serializes json) t = { t with hung := hung } := by rw [flush, hreport, hdrain]
    rw [hflush, hnone, flatten_nil]
    have hnil : numbers ([] : List (TelemetryEvent ρ)) = [] := rfl
    rw [hnil, append_nil]
    exact ⟨h.plain, h.plainPosts, h.place, h.accepted, h.sent, h.failed, h.discarded, h.fresh, h.distinct,
      h.acknowledged⟩

theorem Kept.shifted {t : Transport ρ} {b : Books} (h : Kept t b) (hroom : ¬ (full cfg t = true ∧ t.queue = [])) :
    Kept (shift cfg t) b := by
  unfold NodeTransport.shift
  split_ifs with hfull
  · cases hqueue : t.queue with
    | nil => exact absurd ⟨hfull, hqueue⟩ hroom
    | cons x rest =>
      obtain ⟨r, rfl⟩ := h.plain x (hqueue ▸ mem_cons_self)
      have hplain : Plain rest := fun y hy => h.plain y (hqueue ▸ mem_cons_of_mem _ hy)
      refine ⟨hplain, h.plainPosts, fun n => ?_, h.accepted, h.sent, h.failed, ?_, h.fresh, h.distinct,
        h.acknowledged⟩
      · have hplace := h.place n
        have hnumbers : numbers t.queue = r.number :: numbers rest := by rw [hqueue]; rfl
        rw [hnumbers, ← singleton_append, count_append] at hplace
        have hevents : (events (.event r :: rest)).head? = some r := rfl
        dsimp only
        rw [hevents, Option.map_some, Option.toList_some, map_append, count_append, map_singleton,
          tail_cons]
        dsimp only
        omega
      · dsimp only
        rw [length_append, h.discarded]
        rfl
  · exact h

theorem Kept.appended {t : Transport ρ} {b : Books} (h : Kept t b) {record : Tagged ρ}
    (hrecord : record.number = t.calls) : Kept (append t record) b := by
  have hnew : record.number ∉ t.arrived.map Tagged.number := by
    intro hmem
    obtain ⟨r, hr, heq⟩ := mem_map.mp hmem
    exact absurd (h.fresh r hr) (by rw [heq, hrecord]; exact lt_irrefl _)
  refine ⟨h.plain.append fun x hx => ⟨record, mem_singleton.mp hx⟩, h.plainPosts, fun n => ?_, ?_, h.sent,
    h.failed, h.discarded, fun r hr => ?_, ?_, h.acknowledged⟩
  · have hplace := h.place n
    have hnumbers : numbers (t.queue ++ [.event record]) = numbers t.queue ++ [record.number] := numbers_append _ _
    dsimp only [NodeTransport.append]
    rw [hnumbers, map_append, map_singleton, count_append, count_append]
    omega
  · show t.enqueued + 1 = (t.arrived ++ [record]).length
    rw [h.accepted, length_append]
    rfl
  · show r.number < t.calls + 1
    rcases mem_append.mp hr with hr | hr
    · exact (h.fresh r hr).trans (Nat.lt_succ_self _)
    · rw [mem_singleton.mp hr, hrecord]
      exact Nat.lt_succ_self _
  · show ((t.arrived ++ [record]).map Tagged.number).Nodup
    rw [map_append, map_singleton]
    exact concat_eq_append ▸ h.distinct.concat hnew

theorem Kept.pushed {t : Transport ρ} {b : Books} (h : Kept t b) (hroom : ¬ (full cfg t = true ∧ t.queue = []))
    (body : ρ) : Kept (push cfg t body) b :=
  (h.shifted hroom).appended (shift_calls t).symm

theorem Kept.settled {t : Transport ρ} {b : Books} (h : Kept t b) {k : ℕ} {ok : Bool}
    {batch : List (TelemetryEvent ρ)} (hk : t.posts[k]? = some batch)
    (hbody : ok = true → cfg.fetches = true → serializeBatch json batch = some batch) :
    Kept (settle cfg t k ok)
      (if ok && cfg.fetches then
        { b with
          sent := b.sent ++ numbers batch
          acknowledged := b.acknowledged ++ numbers ((serializeBatch json batch).getD []) }
      else { b with failed := b.failed ++ numbers batch }) := by
  have hplain := h.plainPosts batch (mem_of_getElem? hk)
  have hposts : ∀ batch' ∈ t.posts.eraseIdx k, Plain batch' :=
    fun batch' hmem => h.plainPosts batch' (mem_of_mem_eraseIdx hmem)
  have hplace (n : ℕ) := h.place n
  have herase (n : ℕ) := total_eraseIdx (fun batch => (numbers batch).count n) hk
  rw [settle, hk]
  dsimp only
  split_ifs with hok
  · rw [Bool.and_eq_true] at hok
    refine ⟨h.plain, hposts, fun n => ?_, h.accepted, ?_, h.failed, h.discarded, h.fresh, h.distinct, fun n hn => ?_⟩
    · dsimp only
      rw [count_append, hplace n, ← herase n]
      omega
    · dsimp only
      rw [h.sent, length_append, length_numbers hplain]
    · dsimp only at hn ⊢
      rw [hbody hok.1 hok.2, Option.getD_some]
      rcases mem_append.mp hn with hn | hn
      · exact mem_append_left _ (h.acknowledged n hn)
      · exact mem_append_right _ hn
  · refine ⟨h.plain, hposts, fun n => ?_, h.accepted, h.sent, ?_, h.discarded, h.fresh, h.distinct, h.acknowledged⟩
    · dsimp only
      rw [count_append, hplace n, ← herase n]
      omega
    · dsimp only
      rw [h.failed, length_append, length_numbers hplain]

/-- The conditions of an honest operation, one by one. -/
theorem honest_spec {a : Audit ρ} {op : Op ρ} (h : honest cfg json a op = true) :
    (∀ body, op = .enqueue body → a.transport.closed = false →
      ¬ (full cfg a.transport = true ∧ a.transport.queue = [])) ∧
    (∀ t, flushedAt cfg a.transport op = some t → noteDue cfg t = false) ∧
    ∀ k batch, op = .settle k true → a.transport.posts[k]? = some batch → cfg.fetches = true →
      serializeBatch json batch = some batch := by
  obtain ⟨hflushed, hop⟩ := Bool.and_eq_true_iff.mp h
  refine ⟨?_, fun t ht => ?_, ?_⟩
  · rintro body rfl hclosed ⟨hfull, hempty⟩
    rw [hclosed, hfull, hempty] at hop
    exact absurd hop Bool.false_ne_true
  · rw [ht, Option.all_some] at hflushed
    simpa using hflushed
  · rintro k batch rfl hk hfetches
    dsimp only at hop
    rw [hfetches, hk] at hop
    exact if_pos hop

theorem kept_step {a : Audit ρ} (h : Kept a.transport a.books) {op : Op ρ} (hop : honest cfg json a op = true) :
    Kept (auditStep cfg json a op).transport (auditStep cfg json a op).books := by
  obtain ⟨t, b⟩ := a
  obtain ⟨hroom, hnote, hbody⟩ := honest_spec hop
  show Kept (step cfg (serializes json) t op) (enter cfg json t b op)
  dsimp only at h hroom hnote hbody
  cases hhung : t.hung with
  | true =>
    unfold step enter
    rw [hhung, if_pos rfl, if_pos rfl]
    exact h
  | false =>
    unfold step enter
    rw [hhung, if_neg Bool.false_ne_true, if_neg Bool.false_ne_true]
    cases op with
    | enqueue body =>
      dsimp only [flushedAt, enqueue] at hnote ⊢
      by_cases hclosed : t.closed = true
      · rw [if_pos hclosed, if_pos hclosed]
        exact h
      · rw [if_neg hclosed, if_neg hclosed]
        rw [if_neg hclosed] at hnote
        have hpush := h.pushed (hroom body rfl (Bool.eq_false_iff.mpr hclosed)) body
        by_cases hfull : cfg.batchSize.le (push cfg t body).queue.length = true
        · rw [if_pos hfull, if_pos hfull]
          exact hpush.flushed (hnote _ (if_pos hfull))
        · rw [if_neg hfull, if_neg hfull]
          unfold arm
          split_ifs
          · exact hpush
          · exact ⟨hpush.plain, hpush.plainPosts, hpush.place, hpush.accepted, hpush.sent, hpush.failed,
              hpush.discarded, hpush.fresh, hpush.distinct, hpush.acknowledged⟩
    | tick =>
      dsimp only [flushedAt, tick] at hnote ⊢
      by_cases htimer : t.timer = true
      · rw [if_pos htimer, if_pos htimer]
        exact Kept.flushed ⟨h.plain, h.plainPosts, h.place, h.accepted, h.sent, h.failed, h.discarded, h.fresh,
          h.distinct, h.acknowledged⟩ (hnote _ (if_pos htimer))
      · rw [if_neg htimer, if_neg htimer]
        exact h
    | flush => exact h.flushed (hnote t rfl)
    | shutdown =>
      exact Kept.flushed ⟨h.plain, h.plainPosts, h.place, h.accepted, h.sent, h.failed, h.discarded, h.fresh,
        h.distinct, h.acknowledged⟩ (hnote _ rfl)
    | settle k ok =>
      dsimp only
      cases hk : t.posts[k]? with
      | none =>
        rw [settle, hk]
        exact h
      | some batch => exact h.settled hk fun hok => hbody k batch (by rw [hok]) hk

theorem kept_audit {ops : List (Op ρ)} (hops : Along (auditStep cfg json) (fun a op => honest cfg json a op = true) {} ops) :
    Kept (audit cfg json ops).transport (audit cfg json ops).books := by
  refine @run_along _ _ _ (fun a => Kept a.transport a.books) _ (fun _ _ h hop => kept_step h hop) _ ?_ _ hops
  exact ⟨fun _ hx => absurd hx not_mem_nil, fun _ hx => absurd hx not_mem_nil, fun _ => rfl, rfl, rfl, rfl,
    rfl, fun _ hx => absurd hx not_mem_nil, nodup_nil, fun _ hx => absurd hx not_mem_nil⟩

theorem Kept.reconciled {a : Audit ρ} (h : Kept a.transport a.books) (hquiet : Quiet a.transport) : Reconciled a := by
  have hone : (a.transport.arrived.map Tagged.number).Perm
      (a.books.sent ++ a.books.failed ++ a.transport.evictions.map fun e => e.entry.number) := by
    refine perm_iff_count.mpr fun n => ?_
    have hplace := h.place n
    rw [hquiet.1, hquiet.2, total_nil] at hplace
    rw [hplace, count_append, count_append]
    rfl
  refine ⟨?_, h.accepted, h.sent, h.failed, h.discarded, h.distinct, hone, h.acknowledged⟩
  have hlength := hone.length_eq
  rw [length_map, length_append, length_append, length_map] at hlength
  rw [h.accepted, h.sent, h.failed, h.discarded, hlength]

end Kept

/-! ## One request with an event that cannot be written -/

def writes : TelemetryEvent Bool → Bool
  | .event record => record.body
  | .note _ _ => true

/-- The events are flags that say whether `JSON.stringify` can write them. -/
def flags : Stringify Bool := { batch := fun batch => batch.all writes, event := writes }

def shopConfig : ResolvedConfig :=
  resolveConfig { service := some "shop", endpoint := some "http://collector" } {}

/-- Two events are flushed, and the request is answered with success. -/
def twoFlushed (first second : Bool) : List (Op Bool) :=
  [.enqueue first, .enqueue second, .flush, .settle 0 true]

theorem twoFlushed_quiet (first : Bool) : Quiet (audit shopConfig flags (twoFlushed first true)).transport := by
  cases first <;> exact ⟨rfl, rfl⟩

theorem twoFlushed_honest : Along (auditStep shopConfig flags)
    (fun a op => honest shopConfig flags a op = true) {} (twoFlushed true true) := by
  decide

theorem twoFlushed_overcounts : ¬ Reconciled (audit shopConfig flags (twoFlushed false true)) := by
  intro h
  have hsent := h.acknowledged 0 (by decide)
  exact absurd hsent (by decide)

end PtaasBench.Sdk.NodeTransport
