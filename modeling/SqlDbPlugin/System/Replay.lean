import SqlDbPlugin.Mirror.FailedStatements
import SqlDbPlugin.System.Reference

/-!
# Replaying the chain

In a run statements may fail, appends may run out of memory, and the node
may be destroyed with signals still waiting. What the rows of the keyed
tables have missed, a replay makes up for: if all the emitted signals are
consumed again, and this time every statement succeeds, the keyed tables are
those of a run in which nothing went wrong (`replay_heals`). For a run
writes only keys that the replay writes too (`Confined`), and at each of
these the replay has the last word (`Made.same`).

This needs the replay to read the payloads as the run did. So no recorded
action stores an abi, and the payloads are `system_contract_arg`s: behind one
that is not, the replay gives its trace up, where the run may have gone on.
-/

namespace SqlDb

open Sql (Within)
open ActionsTable

/-! ## Changes that reach no further than others -/

namespace Changes

variable {c c' c'' : Changes} {d d' d'' e e' : Db}

/-- Where `c'` writes in the keyed tables, `c` writes as well. -/
structure Below (c' c : Changes) : Prop where
  accounts : c'.accounts ⊆ c.accounts
  assets : c'.assets.map Prod.fst ⊆ c.assets.map Prod.fst
  votes : c'.votes.map Prod.fst ⊆ c.votes.map Prod.fst
  proposal : c'.proposal.map Prod.fst ⊆ c.proposal.map Prod.fst

theorem below_empty (c : Changes) : Below {} c :=
  ⟨List.nil_subset _, List.nil_subset _, List.nil_subset _, List.nil_subset _⟩

theorem Below.trans (h : Below c'' c') (h' : Below c' c) : Below c'' c :=
  ⟨List.Subset.trans h.accounts h'.accounts, List.Subset.trans h.assets h'.assets,
    List.Subset.trans h.votes h'.votes, List.Subset.trans h.proposal h'.proposal⟩

theorem Below.append {a b : Changes} (ha : Below a c) (hb : Below b c) : Below (a ++ b) c where
  accounts := List.append_subset.mpr ⟨ha.accounts, hb.accounts⟩
  assets := (List.map_append ..).symm ▸ List.append_subset.mpr ⟨ha.assets, hb.assets⟩
  votes := (List.map_append ..).symm ▸ List.append_subset.mpr ⟨ha.votes, hb.votes⟩
  proposal := (List.map_append ..).symm ▸ List.append_subset.mpr ⟨ha.proposal, hb.proposal⟩

theorem below_append_left (c c' : Changes) : Below c (c ++ c') := by
  refine ⟨List.subset_append_left _ _, ?_, ?_, ?_⟩ <;>
    exact List.map_subset _ (List.subset_append_left _ _)

theorem below_append_right (c c' : Changes) : Below c' (c ++ c') := by
  refine ⟨List.subset_append_right _ _, ?_, ?_, ?_⟩ <;>
    exact List.map_subset _ (List.subset_append_right _ _)

theorem below_join {cs : List Changes} (h : c ∈ cs) : Below c (join cs) := by
  induction cs with
  | nil => cases h
  | cons c₁ cs ih =>
    obtain rfl | h := List.mem_cons.mp h
    · exact below_append_left _ _
    · exact (ih h).trans (below_append_right _ _)

/-- The keyed tables of `d'` are those of `d` except where `c` writes, and the abis are all the same. -/
structure UpTo (c : Changes) (d d' : Db) : Prop where
  abis (n : String) : d'.abiOf n = d.abiOf n
  accounts {n : String} : n ∉ c.accounts → ((d'.accounts.find? n).isSome ↔ (d.accounts.find? n).isSome)
  assets {k : String × String} : k ∉ c.assets.map Prod.fst → d'.assets.find? k = d.assets.find? k
  votes {k : String} : k ∉ c.votes.map Prod.fst → d'.votes.find? k = d.votes.find? k
  proposal {k : String × String} : k ∉ c.proposal.map Prod.fst → d'.proposal.find? k = d.proposal.find? k

theorem UpTo.refl (c : Changes) (d : Db) : c.UpTo d d :=
  ⟨fun _ => rfl, fun _ => Iff.rfl, fun _ => rfl, fun _ => rfl, fun _ => rfl⟩

theorem UpTo.trans (h : c.UpTo d d') (h' : c.UpTo d' d'') : c.UpTo d d'' where
  abis n := (h'.abis n).trans (h.abis n)
  accounts hn := (h'.accounts hn).trans (h.accounts hn)
  assets hk := (h'.assets hk).trans (h.assets hk)
  votes hk := (h'.votes hk).trans (h.votes hk)
  proposal hk := (h'.proposal hk).trans (h.proposal hk)

theorem Made.upTo (h : c'.Made d d') (hb : c'.Below c) (habis : c'.abis = []) : c.UpTo d d' where
  abis n := by rw [h.abis, habis, lastWrite_nil]
  accounts hn := by rw [h.accounts, or_iff_left fun hmem => hn (hb.accounts hmem)]
  assets hk := by rw [h.assets, lastWrite_of_not_mem fun hmem => hk (hb.assets hmem)]
  votes hk := by rw [h.votes, lastWrite_of_not_mem fun hmem => hk (hb.votes hmem)]
  proposal hk := by rw [h.proposal, lastWrite_of_not_mem fun hmem => hk (hb.proposal hmem)]

end Changes

/-- The keyed tables of the two have the same rows. -/
structure SameRows (d d' : Db) : Prop where
  accounts (n : String) : d'.accounts.find? n = d.accounts.find? n
  assets (k : String × String) : d'.assets.find? k = d.assets.find? k
  votes (k : String) : d'.votes.find? k = d.votes.find? k
  proposal (k : String × String) : d'.proposal.find? k = d.proposal.find? k

/-- The same changes to two databases that are the same elsewhere make the same rows. -/
theorem Changes.Made.same {c : Changes} {d d' e e' : Db} (h : c.Made d e) (h' : c.Made d' e') (hu : c.UpTo d d') :
    SameRows e e' where
  accounts n := by
    refine find?_accounts ?_ ?_
    · rw [h'.accounts, h.accounts]
      by_cases hn : n ∈ c.accounts
      · exact iff_of_true (.inr hn) (.inr hn)
      · rw [hu.accounts hn]
    · rw [h'.abis, h.abis, show d'.abiOf = d.abiOf from funext hu.abis]
  assets k := by rw [h'.assets, h.assets, lastWrite_congr hu.assets]
  votes k := by rw [h'.votes, h.votes, lastWrite_congr hu.votes]
  proposal k := by rw [h'.proposal, h.proposal, lastWrite_congr hu.proposal]

/-! ## What a run writes -/

variable {L : ChainLib} {my : SqlDbPluginImpl} {abis : String → Option JsonText}

/-- The recorded actions of the trace store no abi, and their payloads are `system_contract_arg`s. -/
def Replayable (L : ChainLib) (my : SqlDbPluginImpl) (abis : String → Option JsonText) (s : Signal) : Prop :=
  ∀ a ∈ recordedArgs my.db.mActionFilterOn s.trace, setabiOf L a.action = none ∧
    ∃ dataJson, contractArg L (payload L (abis a.action.account.str) a.action) = .ok dataJson

instance (L : ChainLib) (my : SqlDbPluginImpl) (abis : String → Option JsonText) (s : Signal) :
    Decidable (Replayable L my abis s) :=
  decidable_of_iff (∀ a ∈ recordedArgs my.db.mActionFilterOn s.trace, (setabiOf L a.action).isNone = true ∧
      (contractArg L (payload L (abis a.action.account.str) a.action)).toBool = true) <| by
    refine forall₂_congr fun a _ => and_congr Option.isNone_iff_eq_none ?_
    rcases contractArg L (payload L (abis a.action.account.str) a.action) with e | dataJson <;> simp [Except.toBool]

/-- The calls for the recorded actions, with the abis stored all the time. -/
def replayed (my : SqlDbPluginImpl) (abis : String → Option JsonText) (replay : List Signal) : List Tried :=
  replay.flatMap fun s => (recordedArgs my.db.mActionFilterOn s.trace).map fun a =>
    { args := a, abi := abis a.action.account.str }

theorem abis_changes {t : Tried} (h : setabiOf L t.args.action = none) : (t.changes L).abis = [] := by
  have hwrite (r : Write) : r.changes.abis = [] := by cases r <;> rfl
  rw [Tried.changes, h]
  rcases t.dataJson L with e | dataJson
  · rfl
  · show ((writeOf L t.abi t.args.action).elim {} Write.changes).abis = []
    rcases writeOf L t.abi t.args.action with _ | r
    · rfl
    · exact hwrite r

theorem abis_changesOf {ts : List Tried} (h : ∀ t ∈ ts, setabiOf L t.args.action = none) :
    (changesOf L ts).abis = [] := by
  induction ts with
  | nil => rfl
  | cons t ts ih =>
    show (t.changes L).abis ++ (changesOf L ts).abis = []
    rw [abis_changes (h t List.mem_cons_self), ih fun t' ht => h t' (List.mem_cons_of_mem t ht)]
    rfl

theorem triedFrom_eq {as : List AddArgs} (h : ∀ a ∈ as, setabiOf L a.action = none ∧
    ∃ dataJson, contractArg L (payload L (abis a.action.account.str) a.action) = .ok dataJson) :
    triedFrom L abis as = as.map fun a => { args := a, abi := abis a.action.account.str } := by
  induction as with
  | nil => rfl
  | cons a as ih =>
    obtain ⟨hset, dataJson, hok⟩ := h a List.mem_cons_self
    have habis := abis_changes (L := L) (t := { args := a, abi := abis a.action.account.str }) hset
    have hrest := ih fun a' ha => h a' (List.mem_cons_of_mem a ha)
    rw [triedFrom, Tried.dataJson, hok]
    simp only [habis, List.map_cons]
    exact congrArg _ hrest

theorem reference_eq {replay : List Signal} (hr : ∀ s ∈ replay, Replayable L my abis s) :
    reference L my abis replay = replayed my abis replay := by
  induction replay with
  | nil => rfl
  | cons s replay ih =>
    have hs := triedFrom_eq (hr s List.mem_cons_self)
    have hrest := ih fun s' h => hr s' (List.mem_cons_of_mem s h)
    have hnone : (changesOf L ((recordedArgs my.db.mActionFilterOn s.trace).map fun a =>
        ({ args := a, abi := abis a.action.account.str } : Tried))).abis = [] := by
      refine abis_changesOf fun t ht => ?_
      obtain ⟨a, ha, rfl⟩ := List.mem_map.mp ht
      exact (hr s List.mem_cons_self a ha).1
    rw [reference, hs, hnone]
    exact congrArg _ hrest

/-- What a call leaves out, it would write if nothing failed; it writes nothing else. -/
theorem Omits.below {a : AddArgs} {abi : Option JsonText} {c : Changes} (h : Omits L a abi c)
    (hset : setabiOf L a.action = none) (hok : ∃ dataJson, contractArg L (payload L abi a.action) = .ok dataJson) :
    c.abis = [] ∧ c.Below (Tried.changes L { args := a, abi }) := by
  obtain ⟨stored, row, write, rfl, hstored, hrow, hwrite⟩ := h
  obtain ⟨dataJson, hok⟩ := hok
  have hs : stored = {} := hstored.resolve_right fun ⟨s, hs, _⟩ => by rw [hset] at hs; cases hs
  have hr : row.abis = [] ∧ row.Below {} := by
    obtain rfl | ⟨json, dataJson, -, -, rfl⟩ := hrow
    · exact ⟨rfl, Changes.below_empty _⟩
    · exact ⟨rfl, List.nil_subset _, List.nil_subset _, List.nil_subset _, List.nil_subset _⟩
  have hw : write.abis = [] ∧ write.Below ((writeOf L abi a.action).elim {} Write.changes) := by
    obtain rfl | ⟨r, n, hr, rfl⟩ := hwrite
    · exact ⟨rfl, Changes.below_empty _⟩
    · rw [hr]
      refine ⟨?_, List.Subset.refl _, List.Subset.refl _, List.Subset.refl _, List.Subset.refl _⟩
      cases r <;> rfl
  have hchanges : ((writeOf L abi a.action).elim {} Write.changes).Below
      (Tried.changes L { args := a, abi }) := by
    rw [Tried.changes, Tried.dataJson, hok]
    exact (Changes.below_append_right _ _).trans (Changes.below_append_right _ _)
  subst hs
  constructor
  · show row.abis ++ write.abis = []
    rw [hr.1, hw.1]
    rfl
  · exact (Changes.below_empty _).append ((hr.2.trans (Changes.below_empty _)).append (hw.2.trans hchanges))

/-! ## Runs -/

/-- With the abis as given, what `c` does not write stays. -/
def Confined (abis : String → Option JsonText) (c : Changes) (d d' : Db) : Prop :=
  d.abiOf = abis → c.UpTo d d'

instance (abis : String → Option JsonText) (c : Changes) : Std.Refl (Confined abis c) :=
  ⟨fun d _ => .refl c d⟩

instance (abis : String → Option JsonText) (c : Changes) : IsTrans Db (Confined abis c) where
  trans d₁ d₂ d₃ h h' habis := by
    have h₁ := h habis
    exact h₁.trans (h' ((funext h₁.abis).trans habis))

theorem add_confined {c : Changes} {a : AddArgs} (hset : setabiOf L a.action = none)
    (hok : ∃ dataJson, contractArg L (payload L (abis a.action.account.str) a.action) = .ok dataJson)
    (hbelow : Changes.Below (Tried.changes L { args := a, abi := abis a.action.account.str }) c)
    (hf : a.action.name.str ∈ my.db.mActionFilterOn) : Within (Confined abis c) (my.db.add L a) := by
  intro w habis
  obtain ⟨ch, homits, hmade⟩ := add_omits (L := L) hf w
  rw [habis] at homits
  obtain ⟨hnone, hch⟩ := homits.below hset hok
  exact hmade.upTo (hch.trans hbelow) hnone

/-- A run over traces that are replayed writes nothing that the replay does not write. -/
theorem consumeAll_confined {first replay : List Signal} (hr : ∀ s ∈ replay, Replayable L my abis s)
    (hfirst : ∀ s ∈ first, ∃ s' ∈ replay, s'.trace = s.trace) (d : Db) :
    Confined abis (changesOf L (replayed my abis replay)) d (consumeAll L my d first) := by
  refine consumeAll_within (fun s hs a ha => ?_) d
  obtain ⟨s', hs', htrace⟩ := hfirst s hs
  by_cases hf : a.action.name.str ∈ my.db.mActionFilterOn
  · have hmem : a ∈ recordedArgs my.db.mActionFilterOn s'.trace := by
      rw [recordedArgs_eq, htrace]
      exact List.mem_filter.mpr ⟨ha, by simpa using hf⟩
    obtain ⟨hset, hok⟩ := hr s' hs' a hmem
    refine add_confined hset hok (Changes.below_join ?_) hf
    refine List.mem_map.mpr ⟨_, List.mem_flatMap.mpr ⟨s', hs', List.mem_map.mpr ⟨a, hmem, rfl⟩⟩, rfl⟩
  · intro w
    rw [SqlDatabase.add, run_add_of_not_mem hf]
    exact Std.Refl.refl _

theorem consumeAll_same {first replay : List Signal} {d : Db} (hclean : ∀ s ∈ replay, s.faults = [])
    (hr : ∀ s ∈ replay, Replayable L my d.abiOf s) (hfirst : ∀ s ∈ first, ∃ s' ∈ replay, s'.trace = s.trace) :
    SameRows (consumeAll L my d replay) (consumeAll L my (consumeAll L my d first) replay) := by
  have hupTo := consumeAll_confined hr hfirst d rfl
  have habis : (consumeAll L my d first).abiOf = d.abiOf := funext hupTo.abis
  have hmade := @consumeAll_made L my replay hclean d
  have hmade' := @consumeAll_made L my replay hclean (consumeAll L my d first)
  rw [habis] at hmade'
  rw [reference_eq hr] at hmade hmade'
  exact hmade.same hmade' hupTo

/-- The signal, when no statement fails. -/
def Signal.flawless (s : Signal) : Signal := { s with faults := [] }

theorem accepted_flawless (signals : List Signal) :
    accepted my (signals.map Signal.flawless) = (accepted my signals).map Signal.flawless := by
  rw [accepted, List.filter_map]
  rfl

/-- Whatever happens in a run of the node, with statements that fail,
appends that run out of memory, signals that still wait, and one that is
half done: when all the signals emitted are consumed again and no statement
fails, the keyed tables are those of a run in which nothing went wrong, if
the recorded actions store no abi and have payloads that can be read. -/
theorem replay_heals {d₀ : Db} {n : Node} (h : (node L my d₀).Reachable n)
    (hr : ∀ s ∈ accepted my n.emitted, Replayable L my d₀.abiOf s) :
    SameRows (mirror L my d₀ (n.emitted.map Signal.flawless)) (mirror L my n.db (n.emitted.map Signal.flawless)) := by
  obtain ⟨pushed, hpushed, hdb⟩ := consumed_db h
  rw [mirror, mirror, accepted_flawless, hdb]
  refine consumeAll_same ?_ ?_ fun s hs => ?_
  · intro s hs
    obtain ⟨s', -, rfl⟩ := List.mem_map.mp hs
    rfl
  · intro s hs
    obtain ⟨s', hs', rfl⟩ := List.mem_map.mp hs
    exact hr s' hs'
  · obtain ⟨s', hacc, htrace⟩ := hpushed s hs
    exact ⟨s'.flawless, List.mem_map.mpr ⟨s', hacc, rfl⟩, htrace.symm⟩

/-- A transaction of the `newaccount` of `alice`, and a plugin that records such. -/
def newaccountTrace : TransactionTrace :=
  { issueTrace with actionTraces := [⟨.systemAccountName, newaccountArgs.action, []⟩] }

def newaccountPlugin : SqlDbPluginImpl := { tokenPlugin with db := newaccountDatabase }

/-- The signals of the run: the `INSERT` of the account fails, and a second trace finds no memory in the queue. -/
def lossyRun : List NodeAct :=
  .emit ⟨newaccountTrace, [none, none, none, none, some .soci]⟩ :: List.replicate 5 (.act (.produce () .returns)) ++
    workTraces 14 ++
    [.emit ⟨newaccountTrace, []⟩, .act (.produce () .returns), .act (.produce () .returns),
      .act (.produce () .throws)]

/-- `alice` is missing behind it, and there behind the replay. -/
theorem replay_heals_alice : ∃ n, (node .system newaccountPlugin {}).Reachable n ∧
    (n.emitted.length = 2 ∧ n.db.accounts.find? "alice" = none) ∧
    (mirror .system newaccountPlugin n.db (n.emitted.map Signal.flawless)).accounts.find? "alice" =
      some ⟨"alice", none⟩ ∧
    SameRows (mirror .system newaccountPlugin {} (n.emitted.map Signal.flawless))
      (mirror .system newaccountPlugin n.db (n.emitted.map Signal.flawless)) := by
  obtain ⟨n, hn, hp⟩ := Machine.reach_of_run (M := node .system newaccountPlugin {}) (fun _ _ => True)
    (p := fun n => n.emitted.length == 2 && n.db.accounts.find? "alice" == none && n.emitted.all (fun s =>
        decide (Replayable .system newaccountPlugin ({} : Db).abiOf s)) &&
      (mirror .system newaccountPlugin n.db (n.emitted.map Signal.flawless)).accounts.find? "alice" ==
        some ⟨"alice", none⟩)
    lossyRun (by decide +kernel)
  simp only [Bool.and_eq_true, beq_iff_eq, List.all_eq_true, decide_eq_true_eq] at hp
  obtain ⟨⟨⟨hlength, hnone⟩, hreplay⟩, halice⟩ := hp
  exact ⟨n, hn, ⟨hlength, hnone⟩, halice, replay_heals hn fun s hs => hreplay s (List.mem_of_mem_filter hs)⟩

end SqlDb
