import Switchyard.Machine

/-!
# What owns what

An owning slot claims tokens: a counted reference to an object, a handle of a fiber, a share of a
hub. Three more tokens stand for claims without a count: to be the only reference, to bury an
object that nothing refers to, and to dispose of a hub that nobody owns. Two say how far the burial
of an object has come.
-/

namespace Switchyard

inductive Token where
  | object (r : Ref)
  /-- The claim that there is exactly one reference to `r`. -/
  | sole (r : Ref)
  /-- The claim that nothing refers to `r`, which still has storage. -/
  | grave (r : Ref)
  /-- The value at `r` is still to be destroyed. -/
  | doom (r : Ref)
  /-- The value at `r` is destroyed, and its storage still to be freed. -/
  | urn (r : Ref)
  | fiber (f : FiberId)
  | hub (h : HubId)
  /-- The claim that nobody owns `h`, which still has its references. -/
  | tomb (h : HubId)
  deriving DecidableEq, Repr

/-- The token claims something that is counted, or the lack of it. -/
def Token.isBacked : Token → Bool
  | doom _ | urn _ => false
  | _ => true

def Obj.tokens (o : Obj) : List Token := (o.map Token.object).toList

@[simp] theorem Obj.tokens_none : Obj.tokens none = [] := rfl

@[simp] theorem Obj.tokens_some (r : Ref) : Obj.tokens (some r) = [.object r] := rfl

def Args.tokens (a : Args Obj) : List Token := a.values.flatMap Obj.tokens

def Payload.tokens : Payload → List Token
  | .ok a => a.tokens
  | .error _ => []

def Outgoing.tokens : Outgoing → List Token
  | .switch target p => .object target :: p.tokens
  | .result p => p.tokens

def RunFn.tokens (run : RunFn) : List Token := run.held.map .object

def Pinned.tokens (p : Pinned FiberId) : List Token := [.fiber p.value]

def Greenlet.tokens (g : Greenlet) : List Token :=
  Obj.tokens g.parent ++ (g.run.map RunFn.tokens).getD [] ++
    (g.fiber.map Pinned.tokens).getD [] ++ (g.inbox.map Payload.tokens).getD []

def Value.tokens : Value → List Token
  | .greenlet g => g.tokens
  | _ => []

def Local.tokens : Local → List Token
  | .handle r => [.object r]
  | .object o => Obj.tokens o
  | .canary _ => []

def Frame.tokens (f : Frame) : List Token := f.locals.flatMap Local.tokens ++ f.last.tokens

def Flow.tokens : Flow → List Token
  | .ret a => a.tokens
  | _ => []

def Purpose.tokens : Purpose → List Token
  | .switch target _ _ => [.object target]
  | _ => []

def Rally.tokens : Rally → List Token
  | .start _ => []
  | .relayed main pong ping => [.object main, .object pong, .object ping]
  | .stopped main pong ping reply =>
    [.object main, .object pong, .object ping] ++ reply.tokens
  | .hit main args | .hitBack main args => .object main :: args.tokens
  | .serve pong args .. | .served pong args .. => .object pong :: args.tokens

/-- What a task owns. A queued release is the only owner of its greenlet. -/
def Task.tokens : Task → List Token
  | drop r => [.object r]
  | dropPinned p => [.fiber p.value]
  | destroy r => [.grave r, .doom r]
  | reclaim r => [.grave r, .urn r]
  | unshare f => [.fiber f]
  | leaveHub h => [.hub h]
  | dropHubFields h => [.tomb h]
  | release _ r => [.object r, .sole r]
  | released _ r | teardownEnd _ r _ => [.object r]
  | switch _ _ p | deliver p | result p => p.tokens
  | answer (.ok a) => a.tokens
  | drive _ target p | driveTarget _ target p | driveKilled _ target p | driveMain _ target p =>
    .object target :: p.tokens
  | driveRefused _ target _ => [.object target]
  | driveRegister _ target f | driveResume _ target f | driveBack _ target f =>
    [.object target, .fiber f]
  | driveFinished _ target out | driveSuspended _ target out =>
    .object target :: (out.map Outgoing.tokens).getD []
  | runBody run args => run.tokens ++ args.tokens
  | bodyEnd run => run.tokens
  | frame f => f.tokens
  | leave flow => flow.tokens
  | hand last flow => last.tokens ++ flow.tokens
  | build acc _ _ purpose => acc.tokens ++ purpose.tokens
  | switched _ target _ => [.object target]
  | rally r => r.tokens
  | _ => []

def Task.tokensOf (ts : List Task) : List Token := ts.flatMap Task.tokens

def Item.tokens : Item Task → List Token
  | .task t => t.tokens
  | .base .. => []

def Item.tokensOf (s : List (Item Task)) : List Token := s.flatMap Item.tokens

def Slot.tokens {α : Type} (f : α → Token) (s : Slot α) : List Token := (s.get?.map f).toList

def Thread.tokens (t : Thread) : List Token :=
  Item.tokensOf t.stack ++ t.pending.tokens .object ++ t.home.tokens .hub

/-- The tokens of a saved stack. A given-up stack owns nothing any more. -/
def Fiber.Phase.tokens : Fiber.Phase Task → List Token
  | .fresh entry _ => Task.tokensOf entry
  | .parked stack => Item.tokensOf stack
  | .active | .ended | .taken => []

def Fiber.tokens (f : Fiber Task) : List Token := f.phase.tokens

/-- A greenlet in a queue of a hub has no other reference. -/
def Token.queued (r : Ref) : List Token := [.object r, .sole r]

def Hub.tokens (s : Hub) : List Token :=
  (if s.disposed then [] else [.object s.main, .object s.current]) ++
    (s.outgoing.map Outgoing.tokens).getD [] ++
    s.deferred.flatMap Token.queued ++ s.foreign.flatMap Token.queued

def Object.tokens (o : Object) : List Token := o.value.tokens

def Table.tokens {α : Type} (F : α → List Token) (t : Table α) : List Token :=
  t.entries.flatMap fun e => F e.2

def World.tableTokens (w : World) : List Token :=
  w.handles.tokens (fun r => Obj.tokens (some r)) ++ w.objects.tokens Obj.tokens ++
    w.outs.tokens Obj.tokens ++ w.named.tokens (fun h => [.hub h])

namespace Args

@[simp] theorem tokens_empty : (Args.empty : Args Obj).tokens = [] := rfl

theorem count_tokens (a : Args Obj) (k : Token) :
    a.tokens.count k = (a.positional.flatMap Obj.tokens).count k +
      (a.keywords.flatMap fun e => Obj.tokens e.2).count k := by
  simp [tokens, values, List.flatMap_map]

@[simp] theorem count_tokens_push (a : Args Obj) (o : Obj) (k : Token) :
    (a.push o).tokens.count k = a.tokens.count k + o.tokens.count k := by
  simp only [count_tokens, push, List.flatMap_append, List.count_append, List.flatMap_cons,
    List.flatMap_nil, List.append_nil]
  omega

private theorem count_assign (name : String) (o : Obj) (k : Token) (l : List (String × Obj)) :
    ((assign name o l).flatMap fun e => Obj.tokens e.2).count k +
      (Obj.tokens (l.lookup name).join).count k =
      (l.flatMap fun e => Obj.tokens e.2).count k + o.tokens.count k := by
  induction l with
  | nil => simp [assign]
  | cons e rest ih =>
    obtain ⟨n, y⟩ := e
    by_cases h : n = name
    · subst h
      simp [assign]
      omega
    · simp only [assign, h, if_false, List.lookup_cons, beq_false_of_ne (Ne.symm h),
        List.flatMap_cons, List.count_append]
      omega

theorem count_tokens_setKeyword (a : Args Obj) (name : String) (o : Obj) (k : Token) :
    (a.setKeyword name o).tokens.count k + (Obj.tokens (a.keyword? name).join).count k =
      a.tokens.count k + o.tokens.count k := by
  have := count_assign name o k a.keywords
  simp only [count_tokens, setKeyword, keyword?]
  omega

end Args

section

variable {k : Token} (hk : ∀ r, k ≠ .object r)
include hk

@[simp] theorem Obj.notMem_tokens (o : Obj) : k ∉ o.tokens := by
  cases o <;> simp [hk]

@[simp] theorem Args.notMem_tokens (a : Args Obj) : k ∉ a.tokens := by simp [Args.tokens, hk]

@[simp] theorem Payload.notMem_tokens (p : Payload) : k ∉ p.tokens := by
  cases p <;> simp [Payload.tokens, hk]

@[simp] theorem Outgoing.notMem_tokens (o : Outgoing) : k ∉ o.tokens := by
  cases o <;> simp [Outgoing.tokens, hk]

@[simp] theorem Outgoing.notMem_getD (o : Option Outgoing) :
    k ∉ (o.map Outgoing.tokens).getD [] := by
  cases o <;> simp [hk]

@[simp] theorem RunFn.notMem_tokens (run : RunFn) : k ∉ run.tokens := by
  simp [RunFn.tokens, Ne.symm (hk _)]

@[simp] theorem Local.notMem_tokens (l : Local) : k ∉ l.tokens := by
  cases l <;> simp [Local.tokens, hk]

@[simp] theorem Frame.notMem_tokens (f : Frame) : k ∉ f.tokens := by simp [Frame.tokens, hk]

@[simp] theorem Flow.notMem_tokens (f : Flow) : k ∉ f.tokens := by
  cases f <;> simp [Flow.tokens, hk]

@[simp] theorem Purpose.notMem_tokens (p : Purpose) : k ∉ p.tokens := by
  cases p <;> simp [Purpose.tokens, hk]

@[simp] theorem Rally.notMem_tokens (x : Rally) : k ∉ x.tokens := by
  cases x <;> simp [Rally.tokens, hk]

theorem Greenlet.notMem_tokens (hf : ∀ f, k ≠ .fiber f) (g : Greenlet) : k ∉ g.tokens := by
  unfold Greenlet.tokens
  cases g.run <;> cases g.fiber <;> cases g.inbox <;> simp [Pinned.tokens, hk, hf]

theorem Object.notMem_tokens (hf : ∀ f, k ≠ .fiber f) (o : Object) : k ∉ o.tokens := by
  unfold Object.tokens Value.tokens
  split
  · exact Greenlet.notMem_tokens hk hf _
  · simp

theorem World.notMem_tableTokens (hh : ∀ h, k ≠ .hub h) (w : World) : k ∉ w.tableTokens := by
  simp [World.tableTokens, Table.tokens, hk, hh]

end

-- Dropping a value takes the tasks that own the same tokens.
namespace Task

attribute [local simp] tokens

@[simp] theorem tokensOf_nil : tokensOf [] = [] := rfl

@[simp] theorem tokensOf_cons (t : Task) (ts : List Task) :
    tokensOf (t :: ts) = t.tokens ++ tokensOf ts := by
  simp [tokensOf]

@[simp] theorem tokensOf_append (ts us : List Task) :
    tokensOf (ts ++ us) = tokensOf ts ++ tokensOf us := by
  simp [tokensOf]

@[simp] theorem tokensOf_toList_drop (o : Obj) :
    tokensOf (o.map drop).toList = o.tokens := by
  cases o <;> rfl

@[simp] theorem tokensOf_dropArgs (a : Args Obj) : tokensOf (dropArgs a) = a.tokens := by
  unfold dropArgs Args.tokens
  induction a.values with
  | nil => rfl
  | cons o os ih =>
    cases o with
    | none => simpa [Obj.tokens] using ih
    | some r => simpa [Obj.tokens, tokens] using ih

@[simp] theorem tokensOf_dropPayload (p : Payload) : tokensOf (dropPayload p) = p.tokens := by
  cases p <;> simp [dropPayload, Payload.tokens]

@[simp] theorem tokensOf_dropOutgoing (o : Option Outgoing) :
    tokensOf (dropOutgoing o) = (o.map Outgoing.tokens).getD [] := by
  rcases o with _ | (⟨target, p⟩ | p) <;> simp [dropOutgoing, Outgoing.tokens]

theorem tokensOf_map_drop (rs : List Ref) : tokensOf (rs.map drop) = rs.map Token.object := by
  induction rs with
  | nil => rfl
  | cons r rs ih => simp [ih]

theorem tokensOf_map_dropCanary (cs : List Script.Canary) :
    tokensOf (cs.map dropCanary) = [] := by
  induction cs with
  | nil => rfl
  | cons c cs ih => simp [ih]

@[simp] theorem count_tokensOf_dropRun (run : RunFn) (k : Token) :
    (tokensOf (dropRun run)).count k = run.tokens.count k := by
  rw [dropRun, tokensOf_append, tokensOf_map_drop, tokensOf_map_dropCanary, RunFn.tokens]
  simp [List.map_reverse]

@[simp] theorem tokensOf_filterMap_dropLocal (ls : List Local) :
    tokensOf (ls.filterMap dropLocal) = ls.flatMap Local.tokens := by
  induction ls with
  | nil => rfl
  | cons l ls ih =>
    cases l with
    | handle r => simp [dropLocal, Local.tokens, ih]
    | object o =>
      cases o with
      | none => rw [List.filterMap_cons_none rfl, ih]; rfl
      | some r => simp [dropLocal, Local.tokens, Obj.tokens, ih]
    | canary c => simp [dropLocal, Local.tokens, ih]

@[simp] theorem tokensOf_dropFlow (f : Flow) : tokensOf (dropFlow f) = f.tokens := by
  cases f <;> simp [dropFlow, Flow.tokens]

theorem count_tokensOf_greenletParts (g : Greenlet) (k : Token) :
    (tokensOf (World.greenletParts g)).count k = g.tokens.count k := by
  unfold World.greenletParts Greenlet.tokens
  simp only [tokensOf_append, List.count_append, tokensOf_toList_drop]
  congr 1
  · congr 1
    · congr 1
      cases g.run with
      | none => rfl
      | some run => simp
    · cases g.fiber <;> simp [Pinned.tokens]
  · cases g.inbox <;> simp

theorem tokensOf_releases (h : HubId) (rs : List Ref) :
    tokensOf (rs.map (release h)) = rs.flatMap Token.queued := by
  induction rs with
  | nil => rfl
  | cons r rs ih => simp [ih, Token.queued]

theorem count_tokensOf_drops (r : Rally) (k : Token) :
    (tokensOf r.drops).count k = r.tokens.count k := by
  cases r <;> simp [Rally.drops, Rally.tokens, List.count_cons] <;> omega

theorem count_tokensOf_cleanup (t : Task) (k : Token) :
    (tokensOf t.cleanup).count k ≤ t.tokens.count k := by
  cases t with
  | answer outcome => cases outcome <;> simp [cleanup]
  | build acc _ _ purpose =>
    cases purpose <;> simp [cleanup, Purpose.tokens]
  | rally r => simp [cleanup, count_tokensOf_drops]
  | _ => simp [cleanup, Frame.tokens, List.count_cons] <;> omega

end Task

namespace Table

variable {α : Type} (F : α → List Token)

private theorem without_eq_self {name : String} {l : List (String × α)}
    (h : name ∉ l.map Prod.fst) : without name l = l := by
  apply List.filter_eq_self.mpr
  intro e he
  simp only [bne_iff_ne, ne_eq]
  rintro rfl
  exact h (List.mem_map_of_mem he)

private theorem count_without (name : String) (k : Token) (l : List (String × α))
    (h : (l.map Prod.fst).Nodup) :
    ((without name l).flatMap fun e => F e.2).count k + (((l.lookup name).map F).getD []).count k =
      (l.flatMap fun e => F e.2).count k := by
  induction l with
  | nil => rfl
  | cons e rest ih =>
    obtain ⟨n, y⟩ := e
    simp only [List.map_cons, List.nodup_cons] at h
    by_cases he : name = n
    · subst he
      have hw : without name ((name, y) :: rest) = rest := by
        simpa [without] using without_eq_self h.1
      simp only [hw, List.lookup_cons, beq_self_eq_true, Option.map_some, Option.getD_some,
        List.flatMap_cons, List.count_append]
      omega
    · have hw : without name ((n, y) :: rest) = (n, y) :: without name rest := by
        simp [without, Ne.symm he]
      have := ih h.2
      simp only [hw, List.lookup_cons, beq_false_of_ne he, List.flatMap_cons, List.count_append]
      omega

theorem count_tokens_erase (t : Table α) (name : String) (k : Token) :
    ((t.erase name).tokens F).count k + (((t.find? name).map F).getD []).count k =
      (t.tokens F).count k :=
  count_without F name k t.entries t.distinct

theorem count_tokens_insert (t : Table α) (name : String) (x : α) (k : Token) :
    ((t.insert name x).tokens F).count k + (((t.find? name).map F).getD []).count k =
      (t.tokens F).count k + (F x).count k := by
  have he := count_tokens_erase F t name k
  have hp := ((place_perm name x (without name t.entries)).flatMap_right fun e => F e.2).count_eq k
  simp only [tokens, erase, insert, List.flatMap_cons, List.count_append] at he hp ⊢
  omega

theorem tokens_pop {t t' : Table α} {e : String × α} (h : t.pop? = some (e, t')) :
    t.tokens F = F e.2 ++ t'.tokens F := by
  obtain ⟨_ | ⟨d, rest⟩, hd⟩ := t
  · simp [pop?] at h
  · simp only [pop?, Option.some.injEq, Prod.mk.injEq] at h
    obtain ⟨rfl, rfl⟩ := h
    simp [tokens]

theorem sublist_of_pop? {t t' : Table α} {e : String × α} (h : t.pop? = some (e, t')) :
    t'.entries.Sublist t.entries := by
  obtain ⟨_ | ⟨d, rest⟩, hd⟩ := t
  · simp [pop?] at h
  · simp only [pop?, Option.some.injEq, Prod.mk.injEq] at h
    obtain ⟨rfl, rfl⟩ := h
    exact List.sublist_cons_self _ _

theorem mem_tokens_of_find? {t : Table α} {name : String} {x : α} (h : t.find? name = some x)
    {k : Token} (hk : k ∈ F x) : k ∈ t.tokens F := by
  have := count_tokens_erase F t name k
  have : 0 < (F x).count k := List.count_pos_iff.mpr hk
  apply List.count_pos_iff.mp
  simp only [h, Option.map_some, Option.getD_some] at *
  omega

end Table

namespace Item

@[simp] theorem tokensOf_nil : tokensOf [] = [] := rfl

@[simp] theorem tokensOf_cons (i : Item Task) (s : List (Item Task)) :
    tokensOf (i :: s) = i.tokens ++ tokensOf s := by
  simp [tokensOf]

@[simp] theorem tokensOf_append (s s' : List (Item Task)) :
    tokensOf (s ++ s') = tokensOf s ++ tokensOf s' := by
  simp [tokensOf]

@[simp] theorem tokensOf_map_task (ts : List Task) :
    tokensOf (ts.map Item.task) = Task.tokensOf ts := by
  induction ts with
  | nil => rfl
  | cons t ts ih => simp [ih, tokens]

end Item

end Switchyard
