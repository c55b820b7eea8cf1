import Mathlib.Data.List.Nodup

/-! # Lists with iterators

A list of nodes that are told apart by numbers. An iterator is the number of a node, or none at the end;
the number of a node that was erased is not given again, and nothing can be done with it. -/
namespace Rts2.Lib

structure Node (α : Type*) where
  id : ℕ
  value : α

structure Nodes (α : Type*) where
  nodes : List (Node α)
  fresh : ℕ

namespace Nodes

variable {α : Type*} (l : Nodes α)

abbrev Iterator := Option ℕ

def values : List α := l.nodes.map Node.value

def ids : List ℕ := l.nodes.map Node.id

/-- The iterator at the first of these nodes. -/
def iteratorAt (b : List (Node α)) : Iterator := b.head?.map Node.id

def begin : Iterator := iteratorAt l.nodes

/-- The nodes before an iterator, and those from it on. -/
def split : Iterator → Option (List (Node α) × List (Node α))
  | none => some (l.nodes, [])
  | some id =>
    if id ∈ l.ids then
      some (l.nodes.takeWhile (·.id ≠ id), l.nodes.dropWhile (·.id ≠ id))
    else none

/-- The first node with such a value. -/
def find (p : α → Bool) : Iterator := iteratorAt (l.nodes.dropWhile fun n => !p n.value)

/-- `*it` -/
def get (it : Iterator) : Option α := (l.split it).bind fun r => r.2.head?.map Node.value

/-- `insert (it, v)`: a new node before the iterator, and the iterator at it. -/
def insert (it : Iterator) (v : α) : Option (Nodes α × Iterator) :=
  (l.split it).map fun r => (⟨r.1 ++ ⟨l.fresh, v⟩ :: r.2, l.fresh + 1⟩, some l.fresh)

/-- `erase (it)` -/
def erase (it : Iterator) : Option (Nodes α) :=
  (l.split it).bind fun r => if r.2 = [] then none else some ⟨r.1 ++ r.2.tail, l.fresh⟩

/-- `it++` -/
def next (it : Iterator) : Option Iterator :=
  (l.split it).bind fun r => if r.2 = [] then none else some (iteratorAt r.2.tail)

/-- The numbers tell the nodes apart, and were all given. -/
structure Sound : Prop where
  nodup : l.ids.Nodup
  given : ∀ n ∈ l.nodes, n.id < l.fresh

/-- Values, each in a node. -/
def ofList (values : List α) : Nodes α := ⟨values.zipIdx.map fun p => ⟨p.2, p.1⟩, values.length⟩

section
variable {l} {a b : List (Node α)} {n : Node α} {fresh : ℕ}

/-- An iterator splits the list where it stands. -/
theorem split_at (h : (⟨a ++ b, fresh⟩ : Nodes α).Sound) :
    (⟨a ++ b, fresh⟩ : Nodes α).split (iteratorAt b) = some (a, b) := by
  cases b with
  | nil => exact congrArg (fun x => some (x, [])) (List.append_nil a)
  | cons n b =>
    have hids : ((a.map Node.id) ++ n.id :: b.map Node.id).Nodup := by
      have hnodup := h.nodup
      unfold ids at hnodup
      rwa [List.map_append, List.map_cons] at hnodup
    have hapart : ∀ m ∈ a, decide (m.id ≠ n.id) = true := by
      intro m hm
      refine decide_eq_true fun heq => ?_
      have hmem : n.id ∈ a.map Node.id := heq ▸ List.mem_map_of_mem hm
      exact (List.nodup_append.mp hids).2.2 n.id hmem n.id List.mem_cons_self rfl
    have hin : n.id ∈ (⟨a ++ n :: b, fresh⟩ : Nodes α).ids :=
      List.mem_map_of_mem (List.mem_append_right a List.mem_cons_self)
    have hstop : decide (n.id ≠ n.id) = false := decide_eq_false fun h => h rfl
    show (if n.id ∈ _ then _ else _) = _
    rw [if_pos hin, List.takeWhile_append_of_pos hapart, List.dropWhile_append_of_pos hapart,
      List.takeWhile_cons_of_neg (by rw [hstop]; exact Bool.false_ne_true),
      List.dropWhile_cons_of_neg (by rw [hstop]; exact Bool.false_ne_true), List.append_nil]

theorem find_at {p : α → Bool} (hbefore : ∀ m ∈ a, p m.value = false) (hn : p n.value = true) :
    (⟨a ++ n :: b, fresh⟩ : Nodes α).find p = some n.id := by
  have hskip : ∀ m ∈ a, (!p m.value) = true := fun m hm => by rw [hbefore m hm]; rfl
  have hstop : ¬ (!p n.value) = true := by
    rw [hn]
    exact Bool.false_ne_true
  unfold find
  have hdrop : (n :: b).dropWhile (fun m => !p m.value) = n :: b := List.dropWhile_cons_of_neg hstop
  rw [List.dropWhile_append_of_pos hskip, hdrop]
  rfl

theorem get_at (h : (⟨a ++ n :: b, fresh⟩ : Nodes α).Sound) :
    (⟨a ++ n :: b, fresh⟩ : Nodes α).get (some n.id) = some n.value := by
  have hsplit : (⟨a ++ n :: b, fresh⟩ : Nodes α).split (some n.id) = some (a, n :: b) := split_at h
  unfold get
  rw [hsplit]
  rfl

theorem insert_at (h : (⟨a ++ b, fresh⟩ : Nodes α).Sound) (v : α) :
    (⟨a ++ b, fresh⟩ : Nodes α).insert (iteratorAt b) v =
      some (⟨a ++ ⟨fresh, v⟩ :: b, fresh + 1⟩, some fresh) := by
  unfold insert
  rw [split_at h]
  rfl

theorem erase_at (h : (⟨a ++ n :: b, fresh⟩ : Nodes α).Sound) :
    (⟨a ++ n :: b, fresh⟩ : Nodes α).erase (some n.id) = some ⟨a ++ b, fresh⟩ := by
  have hsplit : (⟨a ++ n :: b, fresh⟩ : Nodes α).split (some n.id) = some (a, n :: b) := split_at h
  unfold erase
  rw [hsplit]
  rfl

theorem next_at (h : (⟨a ++ n :: b, fresh⟩ : Nodes α).Sound) :
    (⟨a ++ n :: b, fresh⟩ : Nodes α).next (some n.id) = some (iteratorAt b) := by
  have hsplit : (⟨a ++ n :: b, fresh⟩ : Nodes α).split (some n.id) = some (a, n :: b) := split_at h
  unfold next
  rw [hsplit]
  rfl

theorem Sound.insert (h : (⟨a ++ b, fresh⟩ : Nodes α).Sound) (v : α) :
    (⟨a ++ ⟨fresh, v⟩ :: b, fresh + 1⟩ : Nodes α).Sound := by
  constructor
  · have hperm : ((a ++ ⟨fresh, v⟩ :: b).map Node.id).Perm (fresh :: (a ++ b).map Node.id) :=
      List.perm_middle.map _
    refine hperm.nodup_iff.mpr (List.nodup_cons.mpr ⟨fun hmem => ?_, h.nodup⟩)
    obtain ⟨m, hm, heq⟩ := List.mem_map.mp hmem
    have hlt : m.id < fresh := h.given m hm
    omega
  · intro m hm
    have hlt (hm : m ∈ a ++ b) : m.id < fresh + 1 := Nat.lt_succ_of_lt (h.given m hm)
    rcases List.mem_append.mp hm with hm | hm
    · exact hlt (List.mem_append_left b hm)
    · rcases List.mem_cons.mp hm with rfl | hm
      · exact Nat.lt_succ_self fresh
      · exact hlt (List.mem_append_right a hm)

theorem Sound.sublist (h : (⟨a, fresh⟩ : Nodes α).Sound) (hsub : b.Sublist a) :
    (⟨b, fresh⟩ : Nodes α).Sound :=
  ⟨h.nodup.sublist (hsub.map _), fun m hm => h.given m (hsub.subset hm)⟩

theorem values_ofList (values : List α) : (ofList values).values = values := by
  unfold ofList Nodes.values
  rw [List.map_map]
  exact List.zipIdx_map_fst 0 values

theorem sound_ofList (values : List α) : (ofList values).Sound := by
  constructor
  · unfold ofList ids
    rw [List.map_map]
    have hids : (values.zipIdx.map fun p => p.2) = List.range' 0 values.length := List.zipIdx_map_snd 0 values
    exact hids ▸ List.nodup_range'
  · intro n hn
    obtain ⟨p, hp, rfl⟩ := List.mem_map.mp hn
    exact (List.snd_lt_of_mem_zipIdx hp)

end
end Nodes
end Rts2.Lib
