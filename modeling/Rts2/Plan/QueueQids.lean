import Mathlib.Data.List.Forall2
import Mathlib.Data.List.ReduceOption
import Rts2.Plan.Filter
import Rts2.Plan.MoveIndex

/-! # A queue sent whole

`queue_qids` sends the queue it wants: new targets, and entries that are there, with new times. The list is
edited in place, with an iterator behind the entries that stand already; what is left behind it is dropped. -/
namespace Rts2.Plan.QueueQids
open Rts2.Lib
open Que (QidRequest splice placeQid placeQids dropUnknown)

/-- What the database answers: the types of the targets it has, and the ids of a sequence. -/
structure Database (w : World) where
  type : ℤ → Option Char
  nextQid : ℕ → ℕ
  nextQid_lt : ∀ m n, m < n → nextQid m < nextQid n
  createTarget_eq : ∀ n tarId, w.createTarget n tarId = type tarId
  nextQid_eq : ∀ n, w.nextQid n = some (nextQid n)
  answers : ∀ n, w.dbFails n = false

theorem Database.fine {w : World} (db : Database w) {a m : ℕ} : Fine w a m := fun k _ => db.answers (a + k)

/-- The ids of the entries come from the sequence. -/
structure Issued {w : World} (db : Database w) (s : QueState) : Prop where
  nodup : (s.queue.entries.map QueuedTarget.qid).Nodup
  given : ∀ e ∈ s.queue.entries, 0 < e.qid ∧ e.qid < db.nextQid s.pool.asked

/-- The ids sent are -1, or those of entries and not sent twice. -/
structure Named (entries : List QueuedTarget) (requests : List QidRequest) : Prop where
  known : ∀ r ∈ requests, r.qid ≠ -1 → ∃ e ∈ entries, (e.qid : ℤ) = r.qid
  distinct : requests.Pairwise fun r r' => r.qid ≠ -1 → r.qid ≠ r'.qid

/-- The entry a new target gets. -/
def newOf (r : QidRequest) (addr : ℕ) (type : Char) (qid : ℕ) : QueuedTarget :=
  ⟨⟨addr, r.tarId, type⟩, qid, -1, r.tStart, r.tEnd, -1, none, false, false⟩

/-- The times that are sent with an entry. -/
def timed (r : QidRequest) (e : QueuedTarget) : QueuedTarget :=
  { e with tStart := r.tStart, tEnd := r.tEnd }

section
variable {w : World} (db : Database w)

/-- The entry is the one that is asked for: a new one with an id of its own, or the former one with its id
and the times. -/
def Stands (entries : List QueuedTarget) (r : QidRequest) (e : QueuedTarget) : Prop :=
  if r.qid = -1 then
    ∃ addr type qid, db.type r.tarId = some type ∧ (∀ e' ∈ entries, e'.qid ≠ qid) ∧ e = newOf r addr type qid
  else ∃ e' ∈ entries, (e'.qid : ℤ) = r.qid ∧ e = timed r e'

/-- The quadruples that are accepted: those that can be read and name a target of the database. -/
def accepted (requests : List (Option QidRequest)) : List QidRequest :=
  requests.reduceOption.filter fun r => (db.type r.tarId).isSome

/-- The queue comes to be what was sent, and the answer is how much of it was rejected. -/
def Replaces (s : QueState) (requests : List (Option QidRequest)) : Prop :=
  ∃ s', Que.queueFromConnQids w requests s =
      (.ok (requests.length - (accepted db requests).length), s') ∧
    List.Forall₂ (Stands db s.queue.entries) (accepted db requests) s'.queue.entries ∧
    (s'.queue.entries.map QueuedTarget.qid).Nodup

/-! ## The walk -/

/-- While the list is walked: the entries that stand, and those behind the iterator, which were there
before. -/
structure Walk (former : List QueuedTarget) (a : ℕ) (placed rest : List QueuedTarget) : Prop where
  sub : ∀ e ∈ rest, e ∈ former
  nodup : ((placed ++ rest).map QueuedTarget.qid).Nodup
  given : ∀ e ∈ placed ++ rest, e.qid < db.nextQid a
  issued : ∀ e ∈ former, 0 < e.qid ∧ e.qid < db.nextQid a

end

section
variable {w : World} {db : Database w} {former placed rest x y : List QueuedTarget} {a b : ℕ}
  {e : QueuedTarget} {r : QidRequest} {rs : List QidRequest}

theorem perm_added (placed rest : List QueuedTarget) (e : QueuedTarget) :
    (placed ++ [e] ++ rest).Perm (e :: (placed ++ rest)) := by
  rw [List.append_assoc]
  exact List.perm_middle

theorem Walk.later (h : Walk db former a placed rest) (hab : a < b) : Walk db former b placed rest where
  sub := h.sub
  nodup := h.nodup
  given := fun e he => (h.given e he).trans (db.nextQid_lt a b hab)
  issued := fun e he => ⟨(h.issued e he).1, (h.issued e he).2.trans (db.nextQid_lt a b hab)⟩

/-- The iterator goes on behind a new entry. -/
theorem Walk.added (h : Walk db former a placed rest) (hqid : e.qid = db.nextQid a) (hab : a < b) :
    Walk db former b (placed ++ [e]) rest := by
  have hperm := perm_added placed rest e
  have hnew : e.qid < db.nextQid b := hqid ▸ db.nextQid_lt a b hab
  refine ⟨h.sub, ?_, ?_, (h.later hab).issued⟩
  · refine (hperm.map QueuedTarget.qid).nodup_iff.mpr (List.nodup_cons.mpr ⟨fun hmem => ?_, h.nodup⟩)
    obtain ⟨e', he', heq⟩ := List.mem_map.mp hmem
    have hlt := h.given e' he'
    omega
  · intro e' he'
    rcases List.mem_cons.mp (hperm.mem_iff.mp he') with rfl | he'
    · exact hnew
    · exact (h.later hab).given e' he'

/-- An entry behind the iterator comes before it. -/
theorem Walk.moved (h : Walk db former a placed (x ++ e :: y)) (r : QidRequest) :
    Walk db former a (placed ++ [timed r e]) (x ++ y) := by
  have hids : ((placed ++ [timed r e] ++ (x ++ y)).map QueuedTarget.qid).Perm
      ((placed ++ (x ++ e :: y)).map QueuedTarget.qid) := by
    have hnew := perm_added placed (x ++ y) (timed r e)
    have hold : (placed ++ (x ++ e :: y)).Perm (e :: (placed ++ (x ++ y))) := by
      rw [← List.append_assoc, ← List.append_assoc]
      exact List.perm_middle
    exact (hnew.map QueuedTarget.qid).trans (hold.map QueuedTarget.qid).symm
  refine ⟨fun e' he' => h.sub e' ?_, hids.nodup_iff.mpr h.nodup, fun e' he' => ?_, h.issued⟩
  · exact ((List.sublist_cons_self e y).append_left x).subset he'
  · obtain ⟨e₀, he₀, heq⟩ := List.mem_map.mp (hids.mem_iff.mp (List.mem_map_of_mem he'))
    exact heq ▸ h.given e₀ he₀

theorem Named.tail (h : Named rest (r :: rs)) : Named rest rs :=
  ⟨fun r' hr' => h.known r' (List.mem_cons_of_mem r hr'), (List.pairwise_cons.mp h.distinct).2⟩

/-- The entry is not asked for again. -/
theorem Named.moved (h : Named (x ++ e :: y) (r :: rs)) (hqid : (e.qid : ℤ) = r.qid) (hr : r.qid ≠ -1) :
    Named (x ++ y) rs := by
  refine ⟨fun r' hr' hnew => ?_, h.tail.distinct⟩
  obtain ⟨e', he', heq⟩ := h.tail.known r' hr' hnew
  have hother := (List.pairwise_cons.mp h.distinct).1 r' hr' hr
  refine ⟨e', ?_, heq⟩
  rcases List.mem_append.mp he' with he' | he'
  · exact List.mem_append_left y he'
  · rcases List.mem_cons.mp he' with rfl | he'
    · exact absurd (hqid.symm.trans heq) hother
    · exact List.mem_append_right x he'

end

/-! ## One quadruple -/

section
variable {α : Type*} {l l' : List α} {e : α}

theorem findIdx_at {p : α → Bool} (hl : ∀ e' ∈ l, p e' = false) (he : p e = true) :
    (l ++ e :: l').findIdx? p = some l.length := by
  induction l with
  | nil => rw [List.nil_append, List.findIdx?_cons, he]; rfl
  | cons e' l ih =>
    have hfirst := hl e' List.mem_cons_self
    have hrest := ih fun x hx => hl x (List.mem_cons_of_mem e' hx)
    rw [List.cons_append, List.findIdx?_cons, hfirst, hrest]
    rfl

theorem modify_at (f : α → α) : (l ++ e :: l').modify l.length f = l ++ f e :: l' := by
  induction l with
  | nil => rfl
  | cons e' l ih => exact congrArg (e' :: ·) ih

theorem eraseIdx_at : (l ++ e :: l').eraseIdx l.length = l ++ l' := by
  induction l with
  | nil => rfl
  | cons e' l ih => exact congrArg (e' :: ·) ih

end

theorem splice_at (placed x y : List QueuedTarget) (e : QueuedTarget) :
    splice (placed ++ x).length placed.length ((placed ++ x) ++ e :: y) = placed ++ e :: (x ++ y) := by
  have hi : (placed ++ x).length < ((placed ++ x) ++ e :: y).length := by
    simp only [List.length_append, List.length_cons]
    omega
  have hj : placed.length ≤ (placed ++ x).length := by
    rw [List.length_append]
    omega
  have hget : ((placed ++ x) ++ e :: y)[(placed ++ x).length] = e := List.getElem_of_append rfl rfl
  rw [MoveIndex.splice_eq hi (hj.trans hi.le), if_neg (by omega), hget, eraseIdx_at, List.append_assoc,
    MoveIndex.insertIdx_at]

section
variable {w : World} {db : Database w} {former placed rest x y : List QueuedTarget} {a : ℕ}
  {v : QueueValues} {simul : Bool} {s : QueState} {e : QueuedTarget} {r : QidRequest}

theorem placeQid_ends (h : At a (placed ++ (x ++ e :: y)) v simul s)
    (hwalk : Walk db former a placed (x ++ e :: y)) (hqid : (e.qid : ℤ) = r.qid) :
    Ends (placeQid placed.length r) s
      (fun k s' => k = some (placed.length + 1) ∧ At a (placed ++ [timed r e] ++ (x ++ y)) v simul s')
      fun _ _ => False := by
  have hother : ∀ e' ∈ placed ++ x, decide ((e'.qid : ℤ) = r.qid) = false := by
    intro e' he'
    have hnodup := hwalk.nodup
    rw [← List.append_assoc, List.map_append, List.map_cons] at hnodup
    refine decide_eq_false fun heq => ?_
    exact (List.nodup_append.mp hnodup).2.2 _ (List.mem_map_of_mem he') _ List.mem_cons_self
      (Int.natCast_inj.mp (heq.trans hqid.symm))
  have hfind : s.queue.entries.findIdx? (fun e => decide ((e.qid : ℤ) = r.qid)) =
      some (placed ++ x).length := by
    rw [h.entries, ← List.append_assoc]
    exact findIdx_at hother (decide_eq_true hqid)
  have hmoved : splice (placed ++ x).length placed.length (s.queue.entries.modify (placed ++ x).length
      fun e => { e with tStart := r.tStart, tEnd := r.tEnd }) = placed ++ [timed r e] ++ (x ++ y) := by
    rw [h.entries, ← List.append_assoc, modify_at, splice_at, List.append_assoc]
    rfl
  have hbehind : ¬ (placed ++ x).length < placed.length := by
    rw [List.length_append]
    omega
  refine ends_read ?_
  rw [hfind]
  refine Ends.bind (R := fun _ s' => At a (placed ++ [timed r e] ++ (x ++ y)) v simul s') ?_ fun _ s' hs => ?_
  · exact ⟨h.asked, hmoved, h.values, h.simul⟩
  · exact ⟨congrArg some (if_neg hbehind), hs⟩

/-- A target of the database. -/
theorem createTarget_known (h : At a (placed ++ rest) v simul s) {type : Char} {tarId : ℤ}
    (htype : db.type tarId = some type) :
    Ends (Que.createTarget w tarId) s
      (fun nt s' => (∃ addr, nt = ⟨addr, tarId, type⟩) ∧ At (a + 1) (placed ++ rest) v simul s')
      fun _ _ => False := by
  have hanswer : w.createTarget a tarId = some type := (db.createTarget_eq a tarId).trans htype
  refine (createTarget_ends h tarId).mono (fun nt s' hnt => ?_) fun e s' he => ?_
  · obtain ⟨type', htype', rfl, hat⟩ := hnt
    obtain rfl : type' = type := Option.some.inj (htype'.symm.trans hanswer)
    exact ⟨⟨_, rfl⟩, hat⟩
  · rw [hanswer] at he
    cases he.2

/-- A new entry goes to the iterator. -/
theorem newEntry_placed (h : At a (placed ++ rest) v simul s) (hwalk : Walk db former a placed rest)
    (addr : ℕ) (type : Char) (r : QidRequest) {β : Type} {f : QueuedTarget → Que β} {Q : β → QueState → Prop}
    (hf : ∀ qt s', qt = newOf r addr type (db.nextQid a) → At (a + 2) (placed ++ [qt] ++ rest) v simul s' →
      Walk db former (a + 2) (placed ++ [qt]) rest → Ends (f qt) s' Q fun _ _ => False) :
    Ends (do
      let qt ← Que.newEntry w ⟨addr, r.tarId, type⟩ r.tStart r.tEnd (-1) none (-1) false
      Que.modifyEntries fun l => l.insertIdx (min placed.length l.length) qt
      f qt) s Q fun _ _ => False := by
  refine Ends.bind (R := fun qt s' => qt = newOf r addr type (db.nextQid a) ∧
    At (a + 2) (placed ++ rest) v simul s') ?_ fun qt s' hqt => ?_
  · refine (newEntry_ends h ⟨addr, r.tarId, type⟩ r.tStart r.tEnd (-1) none (-1) false).mono
      (fun qt s' hqt => ?_) fun e s' he => he.2 ⟨db.nextQid a, db.nextQid_eq a, db.fine⟩
    obtain ⟨qid, hqid, -, rfl, hat⟩ := hqt
    have hsame : db.nextQid a = qid := Option.some.inj ((db.nextQid_eq a).symm.trans hqid)
    exact ⟨hsame ▸ rfl, hat⟩
  · obtain ⟨hnew, hat⟩ := hqt
    have hplace : s'.queue.entries.insertIdx (min placed.length s'.queue.entries.length) qt =
        placed ++ [qt] ++ rest := by
      have hmin : min placed.length (placed ++ rest).length = placed.length := by
        rw [List.length_append]
        omega
      rw [hat.entries, hmin, MoveIndex.insertIdx_at, List.append_assoc]
      rfl
    have hqid : qt.qid = db.nextQid a := congrArg QueuedTarget.qid hnew
    refine Ends.bind (R := fun _ s' => At (a + 2) (placed ++ [qt] ++ rest) v simul s') ?_ fun _ s₂ hs => ?_
    · exact ⟨hat.asked, hplace, hat.values, hat.simul⟩
    · exact hf qt s₂ hnew hs (hwalk.added hqid (by omega))

end

/-! ## The quadruples -/

section
variable {w : World} {db : Database w} {former : List QueuedTarget} {v : QueueValues} {simul : Bool}

/-- What the first loop leaves: the entries asked for, and behind them those that were not. -/
def Placed (db : Database w) (former placed : List QueuedTarget) (v : QueueValues) (simul : Bool)
    (requests : List (Option QidRequest)) (r : ℕ × List ℕ) (s : QueState) : Prop :=
  ∃ new rest a, r.1 + requests.reduceOption.length = requests.length ∧ r.2 = new.map QueuedTarget.qid ∧
    At a (placed ++ new ++ rest) v simul s ∧ Walk db former a (placed ++ new) rest ∧
    List.Forall₂ (Stands db former) requests.reduceOption new

theorem Placed.cons {placed : List QueuedTarget} {requests : List (Option QidRequest)} {p : ℕ × List ℕ}
    {s : QueState} {r : QidRequest} {e : QueuedTarget}
    (hp : Placed db former (placed ++ [e]) v simul requests p s) (he : Stands db former r e) :
    Placed db former placed v simul (some r :: requests) (p.1, e.qid :: p.2) s := by
  obtain ⟨new, rest, a, hcount, hids, hat, hwalk, hstands⟩ := hp
  have hplaced : placed ++ [e] ++ new = placed ++ e :: new := by
    rw [List.append_assoc]
    rfl
  rw [hplaced] at hat hwalk
  refine ⟨e :: new, rest, a, ?_, congrArg (e.qid :: ·) hids, hat, hwalk, ?_⟩
  · rw [List.reduceOption_cons_of_some, List.length_cons, List.length_cons]
    omega
  · rw [List.reduceOption_cons_of_some]
    exact .cons he hstands

theorem placeQids_ends (requests : List (Option QidRequest)) {placed rest : List QueuedTarget} {a : ℕ}
    {s : QueState} (h : At a (placed ++ rest) v simul s) (hwalk : Walk db former a placed rest)
    (hnamed : Named rest requests.reduceOption)
    (hknown : ∀ r ∈ requests.reduceOption, (db.type r.tarId).isSome) :
    Ends (placeQids w placed.length requests) s (Placed db former placed v simul requests)
      fun _ _ => False := by
  induction requests generalizing placed rest a s with
  | nil =>
    refine ⟨[], rest, a, rfl, rfl, ?_, ?_, .nil⟩
    · rwa [List.append_nil]
    · rwa [List.append_nil]
  | cons request requests ih =>
    cases request with
    | none =>
      refine Ends.bind (ih h hwalk hnamed hknown) fun p s' hp => ?_
      obtain ⟨new, rest', a', hcount, hids, hp⟩ := hp
      exact ⟨new, rest', a', by rw [List.reduceOption_cons_of_none, List.length_cons]; omega, hids, hp⟩
    | some r =>
      rw [List.reduceOption_cons_of_some] at hnamed hknown
      obtain ⟨type, htype⟩ := Option.isSome_iff_exists.mp (hknown r List.mem_cons_self)
      have hrest : ∀ r ∈ requests.reduceOption, (db.type r.tarId).isSome :=
        fun r' hr' => hknown r' (List.mem_cons_of_mem r hr')
      have hlength (e : QueuedTarget) : (placed ++ [e]).length = placed.length + 1 := List.length_append
      refine Ends.bind (createTarget_known h htype) fun nt s₁ hnt => ?_
      obtain ⟨⟨addr, rfl⟩, hat⟩ := hnt
      refine ends_ite (fun hnew => ?_) fun hold => ?_
      · refine newEntry_placed hat (hwalk.later (by omega)) addr type r fun qt s₂ hqt hat' hwalk' => ?_
        have hrun := ih hat' hwalk' hnamed.tail hrest
        rw [hlength] at hrun
        have hstands : Stands db former r qt := (if_pos hnew).mpr
          ⟨addr, type, _, htype, fun e' he' => ((hwalk.later (Nat.lt_succ_self a)).issued e' he').2.ne, hqt⟩
        exact hrun.bind fun p s₃ hp => hp.cons hstands
      · obtain ⟨e, he, hqid⟩ := hnamed.known r List.mem_cons_self hold
        obtain ⟨x, y, rfl⟩ := List.append_of_mem he
        have hwalk' := hwalk.later (Nat.lt_succ_self a)
        refine Ends.bind (placeQid_ends hat hwalk' hqid) fun k s₂ hk => ?_
        obtain ⟨rfl, hat'⟩ := hk
        have hrun := ih hat' (hwalk'.moved r) (hnamed.moved hqid hold) hrest
        rw [hlength] at hrun
        have hstands : Stands db former r (timed r e) :=
          (if_neg hold).mpr ⟨e, hwalk.sub e he, hqid, rfl⟩
        have hid : r.qid.toNat = (timed r e).qid := by
          rw [← hqid]
          rfl
        refine hrun.bind fun p s₃ hp => ?_
        have hcons := hp.cons hstands
        rwa [← hid] at hcons

/-- A target that is not in the database ends the first loop where it stands. -/
theorem placeQids_throws {requests : List (Option QidRequest)} {r : QidRequest}
    (hr : r ∈ requests.reduceOption) (hunknown : db.type r.tarId = none) (k : ℕ) (s : QueState) :
    Ends (placeQids w k requests) s (fun _ _ => False) fun _ _ => True := by
  induction requests generalizing k s with
  | nil => cases hr
  | cons request requests ih =>
    cases request with
    | none => exact (ih hr k s).bind fun _ _ hfalse => hfalse.elim
    | some r' =>
      rw [List.reduceOption_cons_of_some] at hr
      rcases List.mem_cons.mp hr with rfl | hr
      · have hat : At s.pool.asked s.queue.entries s.queue.values s.queue.simul s := ⟨rfl, rfl, rfl, rfl⟩
        refine Ends.bind (R := fun _ _ => False) ((createTarget_ends hat r.tarId).mono
          (fun nt s' hnt => ?_) fun _ _ _ => trivial) fun _ _ hfalse => hfalse.elim
        obtain ⟨type, htype, -⟩ := hnt
        rw [db.createTarget_eq, hunknown] at htype
        cases htype
      · have hlater {β : Type} (k : ℕ) (f : ℕ × List ℕ → Que β) (s : QueState) :
            Ends (placeQids w k requests >>= f) s (fun _ _ => False) fun _ _ => True :=
          (ih hr k s).bind fun _ _ hfalse => hfalse.elim
        refine Ends.bind (ends_trivial _ _) fun nt s₁ _ => ends_ite (fun _ => ?_) fun _ => ?_
        · exact Ends.bind (ends_trivial _ _) fun qt s₂ _ => Ends.bind (ends_trivial _ _) fun _ s₃ _ =>
            hlater _ _ s₃
        · refine Ends.bind (ends_trivial _ _) fun place s₂ _ => ?_
          cases place with
          | none => exact hlater _ _ s₂
          | some k' => exact hlater _ _ s₂

/-- The ids that are kept. -/
def kept (known : List ℕ) (e : QueuedTarget) : Bool := decide ¬ (0 < e.qid ∧ e.qid ∉ known)

theorem does_dropUnknown (known : List ℕ) (l placed : List QueuedTarget) :
    Does w v simul (dropUnknown w known placed.length l) (placed ++ l)
      (l.countP fun e => !kept known e) () (placed ++ l.filter (kept known)) := by
  induction l generalizing placed with
  | nil => exact does_pure ()
  | cons e l ih =>
    unfold dropUnknown
    by_cases hdrop : 0 < e.qid ∧ e.qid ∉ known
    · have hkept : kept known e = false := decide_eq_false fun h => h hdrop
      rw [if_pos hdrop, List.filter_cons, hkept, List.countP_cons_of_pos (by rw [hkept]; rfl)]
      have herase : Does w v simul (Que.modifyEntries (·.eraseIdx placed.length)) (placed ++ e :: l) 0 ()
          (placed ++ l) := (does_modifyEntries _).congr rfl eraseIdx_at
      exact (does_bind (does_removeRecord false) (does_bind herase (ih placed))).congr (by omega) rfl
    · have hkept : kept known e = true := decide_eq_true hdrop
      have hnext := ih (placed ++ [e])
      rw [List.length_append, List.append_assoc, List.append_assoc] at hnext
      rw [if_neg hdrop, List.filter_cons, hkept, List.countP_cons_of_neg (by rw [hkept]; exact Bool.false_ne_true)]
      exact hnext

end

/-! ## The function -/

section
variable {w : World} (db : Database w) {s : QueState} {requests : List (Option QidRequest)}

theorem accepted_all (h : ∀ r ∈ requests.reduceOption, (db.type r.tarId).isSome) :
    accepted db requests = requests.reduceOption := List.filter_eq_self.mpr h

theorem Walk.kept {db : Database w} {former placed rest : List QueuedTarget} {a : ℕ}
    (h : Walk db former a placed rest) :
    (placed ++ rest).filter (kept (placed.map QueuedTarget.qid)) = placed := by
  have hplaced : placed.filter (QueueQids.kept (placed.map QueuedTarget.qid)) = placed :=
    List.filter_eq_self.mpr fun e he => decide_eq_true fun hdrop => hdrop.2 (List.mem_map_of_mem he)
  have hrest : rest.filter (QueueQids.kept (placed.map QueuedTarget.qid)) = [] := by
    refine List.filter_eq_nil_iff.mpr fun e he hkept => ?_
    have hnodup := h.nodup
    rw [List.map_append] at hnodup
    refine of_decide_eq_true hkept ⟨(h.issued e (h.sub e he)).1, fun hmem => ?_⟩
    exact (List.nodup_append.mp hnodup).2.2 _ hmem _ (List.mem_map_of_mem he) rfl
  rw [List.filter_append, hplaced, hrest, List.append_nil]

/-- What is left behind the iterator is dropped. -/
theorem queueFromConnQids_ends (hs : Issued db s) (h : Named s.queue.entries requests.reduceOption)
    (hknown : ∀ r ∈ requests.reduceOption, (db.type r.tarId).isSome) :
    Ends (Que.queueFromConnQids w requests) s
      (fun failed s' => failed = requests.length - requests.reduceOption.length ∧
        List.Forall₂ (Stands db s.queue.entries) requests.reduceOption s'.queue.entries ∧
        (s'.queue.entries.map QueuedTarget.qid).Nodup)
      fun _ _ => False := by
  have hat : At s.pool.asked ([] ++ s.queue.entries) s.queue.values s.queue.simul s := ⟨rfl, rfl, rfl, rfl⟩
  have hwalk : Walk db s.queue.entries s.pool.asked [] s.queue.entries :=
    ⟨fun _ he => he, hs.nodup, fun e he => (hs.given e he).2, hs.given⟩
  refine Ends.bind (placeQids_ends requests hat hwalk h hknown) fun p s₁ hp => ?_
  obtain ⟨new, rest, a, hcount, hids, hat₁, hwalk₁, hstands⟩ := hp
  have hdrop : Does w s.queue.values s.queue.simul (dropUnknown w p.2 0 (new ++ rest)) (new ++ rest)
      ((new ++ rest).countP fun e => !kept p.2 e) () ((new ++ rest).filter (kept p.2)) :=
    does_dropUnknown p.2 (new ++ rest) []
  refine ends_read ?_
  rw [hat₁.entries]
  refine Ends.bind ((hdrop a s₁ hat₁).mono (fun _ _ hdone => hdone) fun _ _ hfail => hfail.2 db.fine)
    fun _ s₂ hdone => ?_
  have hentries : s₂.queue.entries = new := by
    rw [hdone.2.1.entries, hids]
    exact hwalk₁.kept
  have hnodup : (new.map QueuedTarget.qid).Nodup :=
    hwalk₁.nodup.sublist ((List.sublist_append_left new rest).map QueuedTarget.qid)
  refine ⟨by omega, ?_, ?_⟩
  · rw [hentries]
    exact hstands
  · rw [hentries]
    exact hnodup

end

/-- **The queue is what was sent** as long as every target that is sent is in the database. Any other one
throws, where it was to be counted as a failure. -/
theorem queueFromConnQids_replaces_iff {w : World} (db : Database w) (s : QueState) (hs : Issued db s)
    (requests : List (Option QidRequest)) (h : Named s.queue.entries requests.reduceOption) :
    Replaces db s requests ↔ ∀ r ∈ requests.reduceOption, (db.type r.tarId).isSome := by
  constructor
  · intro hreplaces r hr
    obtain ⟨s', hrun, -⟩ := hreplaces
    by_contra hunknown
    have hnone : db.type r.tarId = none := Option.not_isSome_iff_eq_none.mp hunknown
    have hthrows : Ends (Que.queueFromConnQids w requests) s (fun _ _ => False) fun _ _ => True :=
      (placeQids_throws hr hnone 0 s).bind fun _ _ hfalse => hfalse.elim
    exact hthrows.of_ok hrun
  · intro hknown
    obtain ⟨failed, s', hrun, rfl, hstands, hnodup⟩ := (queueFromConnQids_ends db hs h hknown).returns
    unfold Replaces
    rw [accepted_all db hknown]
    exact ⟨s', hrun, hstands, hnodup⟩

/-- A database with these targets, where the next id is 3. -/
def worldOf (type : ℤ → Option Char) : World :=
  { World.quiet with
    createTarget := fun _ => type
    nextQid := fun n => some (n + 3) }

def databaseOf (type : ℤ → Option Char) : Database (worldOf type) where
  type := type
  nextQid := (· + 3)
  nextQid_lt := fun _ _ => Nat.add_lt_add_right (k := 3)
  createTarget_eq := fun _ _ => rfl
  nextQid_eq := fun _ => rfl
  answers := fun _ => rfl

/-- The second entry first, with a start, then a group that cannot be read and a new target. -/
theorem queueFromConnQids_replaces_two :
    Replaces (databaseOf fun _ => some 'O') MoveIndex.two [some ⟨2, 2, some 5, none⟩, none, some ⟨-1, 7, none, none⟩] := by
  have hissued : Issued (databaseOf fun _ => some 'O') MoveIndex.two := ⟨by decide, by decide⟩
  have hnamed : Named MoveIndex.two.queue.entries
      (List.reduceOption [some ⟨2, 2, some 5, none⟩, none, some ⟨-1, 7, none, none⟩]) :=
    ⟨by decide, by decide⟩
  exact (queueFromConnQids_replaces_iff _ _ hissued _ hnamed).mpr (by decide)

/-- A target that is not in the database: an exception, and both entries stay. -/
theorem queueFromConnQids_throws :
    ¬ Replaces (databaseOf fun tarId => if tarId = 7 then none else some 'O') MoveIndex.two
      [some ⟨2, 2, some 5, none⟩, some ⟨-1, 7, none, none⟩] := by
  intro h
  obtain ⟨s', hrun, -⟩ := h
  have hthrown := congrArg Prod.fst hrun
  cases hthrown

end Rts2.Plan.QueueQids
