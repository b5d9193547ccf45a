import Socp.Store.Packed

/-!
Changes of a store, one at a time and in a row, with the handles that they issue and those whose
entries they remove. They are the same for handles with numbers and for handles in words.
-/

namespace Socp

/-- Storage of `β` under handles `η`, as far as it can be changed. -/
class Arena (σ : Type) (η β : outParam Type) where
  insert : σ → β → η × σ
  update : σ → η → (β → β) → Except ProgramError σ
  updateAll : σ → (β → β) → σ
  remove : σ → η → Except ProgramError (β × σ)

instance {k : Entity} {β : Type} : Arena (Store k β) (Handle k) β :=
  ⟨Store.insert, Store.update, Store.mapValues, Store.remove⟩

instance {k : Entity} {β : Type} : Arena (PackedStore k β) (PackedHandle k) β :=
  ⟨PackedStore.insert, PackedStore.update, PackedStore.mapValues, PackedStore.remove⟩

variable {σ η β : Type}

inductive Change (η β : Type)
  | insert (v : β)
  | update (h : η) (f : β → β)
  | updateAll (f : β → β)
  | remove (h : η)

namespace Change

/-- Makes a change. One that is refused changes nothing. -/
def apply [Arena σ η β] (s : σ) : Change η β → σ
  | .insert v => (Arena.insert s v).2
  | .update h f =>
    match Arena.update s h f with
    | .ok t => t
    | .error _ => s
  | .updateAll f => Arena.updateAll s f
  | .remove h =>
    match Arena.remove s h with
    | .ok (_, t) => t
    | .error _ => s

def issued [Arena σ η β] (s : σ) : Change η β → List η
  | .insert v => [(Arena.insert s v).1]
  | _ => []

def removed [Arena σ η β] (s : σ) : Change η β → List η
  | .remove h =>
    match Arena.remove s h with
    | .ok _ => [h]
    | .error _ => []
  | _ => []

/-- What a change does to the value that a handle stands for, which is nothing unless it is made
through this handle or goes over all entries. -/
def act [DecidableEq η] (g : η) : Change η β → Option β → Option β
  | .insert _, v => v
  | .update h f, v => if g = h then v.map f else v
  | .updateAll f, v => v.map f
  | .remove h, v => if g = h then none else v

/-- Whether a change keeps a view of every value that it replaces. -/
def Keeps {γ : Type} (view : β → γ) : Change η β → Prop
  | .update _ f | .updateAll f => ∀ v, view (f v) = view v
  | _ => True

theorem view_act [DecidableEq η] {γ : Type} {view : β → γ} {a : γ} {c : Change η β}
    (hc : c.Keeps view) {g : η} {o : Option β} (ho : ∀ v ∈ o, view v = a) :
    ∀ v ∈ c.act g o, view v = a := by
  have hmap : ∀ f : β → β, (∀ v, view (f v) = view v) → ∀ v ∈ o.map f, view v = a := by
    intro f hf v hv
    obtain ⟨w, hw, rfl⟩ := Option.map_eq_some_iff.1 hv
    rw [hf, ho w hw]
  cases c with
  | insert w => exact ho
  | update h f =>
      rw [act]
      split
      · exact hmap f hc
      · exact ho
  | updateAll f => exact hmap f hc
  | remove h =>
      rw [act]
      split
      · simp
      · exact ho

theorem view_foldl_act [DecidableEq η] {γ : Type} {view : β → γ} {a : γ} {cs : List (Change η β)}
    (hcs : ∀ c ∈ cs, c.Keeps view) {g : η} {o : Option β} (ho : ∀ v ∈ o, view v = a) :
    ∀ v ∈ cs.foldl (fun w c => c.act g w) o, view v = a := by
  induction cs generalizing o with
  | nil => exact ho
  | cons c cs ih =>
      exact ih (fun c' hc' => hcs c' (List.mem_cons_of_mem c hc'))
        (view_act (hcs c List.mem_cons_self) ho)

end Change

namespace Arena

variable [Arena σ η β]

def applyAll (s : σ) (cs : List (Change η β)) : σ := cs.foldl Change.apply s

/-- The handles that changes issue, in the order of issue. -/
def issuedBy (s : σ) : List (Change η β) → List η
  | [] => []
  | c :: cs => c.issued s ++ issuedBy (c.apply s) cs

def removedBy (s : σ) : List (Change η β) → List η
  | [] => []
  | c :: cs => c.removed s ++ removedBy (c.apply s) cs

@[simp] theorem applyAll_nil (s : σ) : applyAll s ([] : List (Change η β)) = s := rfl

@[simp] theorem applyAll_cons (s : σ) (c : Change η β) (cs : List (Change η β)) :
    applyAll s (c :: cs) = applyAll (c.apply s) cs := rfl

theorem applyAll_append (s : σ) (cs more : List (Change η β)) :
    applyAll s (cs ++ more) = applyAll (applyAll s cs) more :=
  List.foldl_append

theorem issuedBy_append (s : σ) (cs more : List (Change η β)) :
    issuedBy s (cs ++ more) = issuedBy s cs ++ issuedBy (applyAll s cs) more := by
  induction cs generalizing s with
  | nil => rfl
  | cons c cs ih => rw [List.cons_append, issuedBy, ih, issuedBy, applyAll_cons, List.append_assoc]

theorem removedBy_append (s : σ) (cs more : List (Change η β)) :
    removedBy s (cs ++ more) = removedBy s cs ++ removedBy (applyAll s cs) more := by
  induction cs generalizing s with
  | nil => rfl
  | cons c cs ih =>
      rw [List.cons_append, removedBy, ih, removedBy, applyAll_cons, List.append_assoc]

/-- Changes lead from one store to another. They issue and remove these handles, and what they
replace looks as it did. -/
def Leads {γ : Type} (view : β → γ) (s t : σ) (issued removed : List η) : Prop :=
  ∃ cs, applyAll s cs = t ∧ issuedBy s cs = issued ∧ removedBy s cs = removed ∧
    ∀ c ∈ cs, c.Keeps view

namespace Leads

variable {γ : Type} {view : β → γ} {s t u : σ} {issued removed issued' removed' : List η}

theorem refl (view : β → γ) (s : σ) : Leads view s s [] [] := ⟨[], rfl, rfl, rfl, by simp⟩

theorem trans (hst : Leads view s t issued removed) (htu : Leads view t u issued' removed') :
    Leads view s u (issued ++ issued') (removed ++ removed') := by
  obtain ⟨cs, rfl, rfl, rfl, hkeeps⟩ := hst
  obtain ⟨more, rfl, rfl, rfl, hkeeps'⟩ := htu
  refine ⟨cs ++ more, applyAll_append s cs more, issuedBy_append s cs more,
    removedBy_append s cs more, ?_⟩
  intro c hc
  exact (List.mem_append.1 hc).elim (hkeeps c) (hkeeps' c)

theorem of_apply (c : Change η β) (hc : c.Keeps view) (s : σ) :
    Leads view s (c.apply s) (c.issued s) (c.removed s) :=
  ⟨[c], rfl, List.append_nil _, List.append_nil _, by simpa using hc⟩

end Leads

end Arena

end Socp
