import SonicBrew.AudioEngine.Ports

/-!
# A graph is its topology, renumbered

When `build_graph` returns a graph, this is the topology again: a node for every node, registered
the way the factory handed it over, and a link for every link, in the same order and between the
same ports. Only the ids are other ones, since the graph library gives a node an id of its own
(`SonicBrew.Renumbered`).

Here nothing more is relied on than that these ids are fresh, and that a link is made exactly if
both of its ports are there and go together (`SonicBrew.ObservedGraph`). So what a build does is
known from what the factory answers: it succeeds exactly if there is an answer for every node, both
ends of every link are nodes of the topology and their answers have ports that go together, and the
graph that was put together compiles (`SonicBrew.buildGraph_iff_renumbered`).

The invariant of the first loop is that the map from the old ids to the new ones is one to one onto
the nodes that are registered (`SonicBrew.Building.Built`); the second loop does not touch it.
-/

namespace SonicBrew

section Observed

variable {ν : Type} [HasPorts ν]

/-- The two ports that a link would join, in a graph with these nodes. -/
def Reaches (node : NodeId → Option (BuiltNode ν)) (src dst : NodeId × PortIdx)
    (o i : PortMeta) : Prop :=
  (∃ n, node src.1 = some n ∧ (HasPorts.outputs n.node)[src.2]? = some o) ∧
    ∃ n, node dst.1 = some n ∧ (HasPorts.inputs n.node)[dst.2]? = some i

/-- **What is relied on of the graph library**: a node is registered under a fresh id, as a plain
node or as a sink; a link is made exactly if both ports exist and are compatible, and is put after
the others; and nothing else changes. -/
class ObservedGraph (G : Type) {ν : outParam Type} [GraphOps G ν] [HasPorts ν] where
  /-- What is registered under an id. -/
  node : G → NodeId → Option (BuiltNode ν)
  links : G → List ((NodeId × PortIdx) × (NodeId × PortIdx))
  compatible : PortMeta → PortMeta → Prop
  node_new (k : NodeId) : node GraphOps.new k = none
  links_new : links GraphOps.new = []
  fresh_addNode (g : G) (n : ν) : node g (GraphOps.addNode g n).2 = none
  node_addNode (g : G) (n : ν) : node (GraphOps.addNode g n).1 =
    Function.update (node g) (GraphOps.addNode g n).2 (some (.plain n))
  links_addNode (g : G) (n : ν) : links (GraphOps.addNode g n).1 = links g
  fresh_addSink (g : G) (n : ν) : node g (GraphOps.addSink g n).2 = none
  node_addSink (g : G) (n : ν) : node (GraphOps.addSink g n).1 =
    Function.update (node g) (GraphOps.addSink g n).2 (some (.sink n))
  links_addSink (g : G) (n : ν) : links (GraphOps.addSink g n).1 = links g
  link_ok_iff (g : G) (src dst : NodeId × PortIdx) :
    (∃ g', GraphOps.link g src dst = .ok g') ↔
      ∃ o i, Reaches (node g) src dst o i ∧ compatible o i
  node_link {g g' : G} {src dst : NodeId × PortIdx} (h : GraphOps.link g src dst = .ok g') :
    node g' = node g
  links_link {g g' : G} {src dst : NodeId × PortIdx} (h : GraphOps.link g src dst = .ok g') :
    links g' = links g ++ [(src, dst)]
  node_compile {g g' : G} {config : GraphConfig} (h : GraphOps.compile g config = .ok g') :
    node g' = node g
  links_compile {g g' : G} {config : GraphConfig} (h : GraphOps.compile g config = .ok g') :
    links g' = links g

end Observed

/-! ### What a build is made of -/

/-- The answers of the factory, asked for one node after the other. -/
def answers {σ ν : Type} (factory : NodeFactory σ ν) (s : σ) :
    List NodeSnapshot → List (NodeId × Option (BuiltNode ν))
  | [] => []
  | n :: ns => (n.id, (factory n.id s).1) :: answers factory (factory n.id s).2 ns

/-- **The factory builds every node**, and these are the nodes it builds. -/
def Answered {σ ν : Type} (factory : NodeFactory σ ν) (s : σ) (ns : List NodeSnapshot)
    (built : List (NodeId × BuiltNode ν)) : Prop :=
  answers factory s ns = built.map fun p => (p.1, some p.2)

theorem Answered.map_fst {σ ν : Type} {factory : NodeFactory σ ν} {s : σ}
    {ns : List NodeSnapshot} {built : List (NodeId × BuiltNode ν)}
    (h : Answered factory s ns built) : built.map Prod.fst = ns.map NodeSnapshot.id := by
  induction ns generalizing s built with
  | nil =>
    obtain rfl := List.map_eq_nil_iff.mp h.symm
    rfl
  | cons n ns ih =>
    obtain ⟨p, rest, rfl, hp, hrest⟩ := List.map_eq_cons_iff.mp h.symm
    rw [List.map_cons, List.map_cons, ih hrest.symm]
    exact congrArg (· :: _) (congrArg Prod.fst hp)

section Spec

variable {G ν : Type} [GraphOps G ν]

/-- A node that is put into the graph. -/
def Building.place (b : Building G) (p : NodeId × BuiltNode ν) : Building G :=
  (b.addBuilt p.1 (some p.2)).toOption.getD b

/-- A link that is made if it can be made. -/
def Building.join (b : Building G) (e : SnapshotEdge) : Building G :=
  (b.linkEdge e).toOption.getD b

/-- **The graph that is put together** of nodes and links, before it is compiled. -/
def assembled (G : Type) [GraphOps G ν] (built : List (NodeId × BuiltNode ν))
    (edges : List SnapshotEdge) : G :=
  (edges.foldl Building.join (built.foldl Building.place (Building.new : Building G))).graph

variable [HasPorts ν] [ObservedGraph G]

variable (G) in
/-- A link between nodes that have these ports, which go together. -/
def Linkable (built : List (NodeId × BuiltNode ν)) (e : SnapshotEdge) : Prop :=
  ∃ n m o i, (e.src.1, n) ∈ built ∧ (HasPorts.outputs n.node)[e.src.2]? = some o ∧
    (e.dst.1, m) ∈ built ∧ (HasPorts.inputs m.node)[e.dst.2]? = some i ∧
    ObservedGraph.compatible G o i

/-- A link of the topology, and the link that stands for it. -/
def LinkImage (idMap : NodeId → Option NodeId) (e : SnapshotEdge)
    (l : (NodeId × PortIdx) × (NodeId × PortIdx)) : Prop :=
  idMap e.src.1 = some l.1.1 ∧ l.1.2 = e.src.2 ∧ idMap e.dst.1 = some l.2.1 ∧ l.2.2 = e.dst.2

/-- **The graph is the topology, renumbered**: the map is one to one from the nodes of the topology
to those of the graph, each of which is registered as it was built, and the links are the same ones,
port by port and in order. -/
structure Renumbered (t : TopologySnapshot) (built : List (NodeId × BuiltNode ν)) (g : G)
    (idMap : NodeId → Option NodeId) : Prop where
  domain : ∀ id, (∃ k, idMap id = some k) ↔ id ∈ t.ids
  injective : ∀ i j k, idMap i = some k → idMap j = some k → i = j
  registered : ∀ p ∈ built, ∃ k, idMap p.1 = some k ∧ ObservedGraph.node g k = some p.2
  onto : ∀ k n, ObservedGraph.node g k = some n → ∃ id, idMap id = some k ∧ (id, n) ∈ built
  links : List.Forall₂ (LinkImage idMap) t.edges (ObservedGraph.links g)

end Spec

namespace Building

variable {G ν : Type} [GraphOps G ν] [HasPorts ν] [ObservedGraph G]

open ObservedGraph (node links)

/-- **The ids are one to one** between the nodes that were built and those of the graph. -/
structure Built (b : Building G) (built : List (NodeId × BuiltNode ν)) : Prop where
  registered : ∀ p ∈ built, ∃ k, b.idMap p.1 = some k ∧ node b.graph k = some p.2
  known : ∀ id k, b.idMap id = some k → ∃ n, (id, n) ∈ built ∧ node b.graph k = some n
  injective : ∀ i j k, b.idMap i = some k → b.idMap j = some k → i = j
  onto : ∀ k n, node b.graph k = some n → ∃ id, b.idMap id = some k

theorem built_new : (new : Building G).Built ([] : List (NodeId × BuiltNode ν)) where
  registered _ hp := absurd hp List.not_mem_nil
  known _ k h := absurd h (Option.some_ne_none k).symm
  injective _ _ k h := absurd h (Option.some_ne_none k).symm
  onto k n h :=
    absurd ((ObservedGraph.node_new (G := G) k).symm.trans h) (Option.some_ne_none n).symm

/-! ### The nodes -/

/-- **A node is registered under a fresh id**, as what it is. -/
theorem exists_addBuilt (b : Building G) (id : NodeId) (n : BuiltNode ν) :
    ∃ b' k, b.addBuilt id (some n) = .ok b' ∧ node b.graph k = none ∧
      node b'.graph = Function.update (node b.graph) k (some n) ∧
      links b'.graph = links b.graph ∧
      b'.idMap = fun i => if i = id then some k else b.idMap i := by
  rcases n with n | n
  · exact ⟨_, _, rfl, ObservedGraph.fresh_addNode b.graph n, ObservedGraph.node_addNode b.graph n,
      ObservedGraph.links_addNode b.graph n, rfl⟩
  · exact ⟨_, _, rfl, ObservedGraph.fresh_addSink b.graph n, ObservedGraph.node_addSink b.graph n,
      ObservedGraph.links_addSink b.graph n, rfl⟩

/-- **One more node** keeps the ids one to one. -/
theorem Built.place {b : Building G} {built : List (NodeId × BuiltNode ν)} (hb : b.Built built)
    {p : NodeId × BuiltNode ν} (hp : p.1 ∉ built.map Prod.fst) :
    (b.place p).Built (built ++ [p]) ∧
      links (b.place p).graph = links b.graph := by
  obtain ⟨id, n⟩ := p
  obtain ⟨b', k, hadd, hfresh, hnode, hlinks, hmap⟩ := exists_addBuilt b id n
  have hplace : b.place (id, n) = b' := by rw [Building.place, hadd]; rfl
  -- no node had the new id, and no id the new node
  have hold : ∀ i l, b.idMap i = some l → i ≠ id ∧ l ≠ k := by
    intro i l hi
    obtain ⟨m, hm, hl⟩ := hb.known i l hi
    refine ⟨?_, ?_⟩
    · rintro rfl
      exact hp (List.mem_map.mpr ⟨_, hm, rfl⟩)
    · rintro rfl
      exact absurd (hfresh.symm.trans hl) (Option.some_ne_none m).symm
  have hself : b'.idMap id = some k := by rw [hmap]; exact if_pos rfl
  have hother : ∀ i l, b.idMap i = some l →
      b'.idMap i = some l ∧ node b'.graph l = node b.graph l := by
    intro i l hi
    obtain ⟨hne, hl⟩ := hold i l hi
    rw [hmap, hnode]
    exact ⟨(if_neg hne).trans hi, Function.update_of_ne hl _ _⟩
  have hcases : ∀ i l, b'.idMap i = some l → i = id ∧ l = k ∨ b.idMap i = some l := by
    intro i l hi
    rw [hmap] at hi
    dsimp only at hi
    split at hi
    · rename_i heq
      exact Or.inl ⟨heq, (Option.some.inj hi).symm⟩
    · exact Or.inr hi
  have hnew : node b'.graph k = some n := by
    rw [hnode]
    exact Function.update_self _ _ _
  rw [hplace]
  refine ⟨⟨?_, ?_, ?_, ?_⟩, hlinks⟩
  · intro q hq
    obtain hq | hq := List.mem_append.mp hq
    · obtain ⟨l, hl, hn⟩ := hb.registered q hq
      obtain ⟨hl', hn'⟩ := hother _ _ hl
      exact ⟨l, hl', hn'.trans hn⟩
    · obtain rfl := List.mem_singleton.mp hq
      exact ⟨k, hself, hnew⟩
  · intro i l hi
    obtain ⟨rfl, rfl⟩ | hi := hcases i l hi
    · exact ⟨n, List.mem_append_right _ List.mem_cons_self, hnew⟩
    · obtain ⟨m, hm, hl⟩ := hb.known i l hi
      exact ⟨m, List.mem_append_left _ hm, (hother i l hi).2.trans hl⟩
  · intro i j l hi hj
    obtain ⟨rfl, rfl⟩ | hi := hcases i l hi
    · obtain ⟨rfl, -⟩ | hj := hcases j l hj
      · rfl
      · exact absurd rfl (hold j l hj).2
    · obtain ⟨rfl, rfl⟩ | hj := hcases j l hj
      · exact absurd rfl (hold i l hi).2
      · exact hb.injective i j l hi hj
  · intro l m hm
    by_cases hl : l = k
    · exact ⟨id, hl ▸ hself⟩
    · rw [hnode, Function.update_of_ne hl] at hm
      obtain ⟨i, hi⟩ := hb.onto l m hm
      exact ⟨i, (hother i l hi).1⟩

/-- **All nodes.** -/
theorem Built.foldl_place {b : Building G} {done built : List (NodeId × BuiltNode ν)}
    (hb : b.Built done) (hnodup : ((done ++ built).map Prod.fst).Nodup) :
    (built.foldl Building.place b).Built (done ++ built) ∧
      links (built.foldl Building.place b).graph = links b.graph := by
  induction built generalizing b done with
  | nil =>
    rw [List.append_nil]
    exact ⟨hb, rfl⟩
  | cons p built ih =>
    rw [List.append_cons] at hnodup ⊢
    have hp : p.1 ∉ done.map Prod.fst := by
      intro hmem
      rw [List.map_append, List.map_append] at hnodup
      have hdisjoint := List.disjoint_of_nodup_append (List.nodup_append.mp hnodup).1
      exact hdisjoint hmem List.mem_cons_self
    obtain ⟨hplaced, hlinks⟩ := hb.place hp
    obtain ⟨hall, hlinks'⟩ := ih hplaced hnodup
    exact ⟨hall, hlinks'.trans hlinks⟩

section Answers

variable {σ : Type} {factory : NodeFactory σ ν}

/-- **The first loop**, if the factory builds every node. -/
theorem buildNodes_of_answered (b : Building G) {s : σ} {ns : List NodeSnapshot}
    {built : List (NodeId × BuiltNode ν)} (h : Answered factory s ns built) :
    ∃ s', b.buildNodes factory s ns = (.ok (built.foldl Building.place b), s') := by
  induction ns generalizing b s built with
  | nil =>
    obtain rfl := List.map_eq_nil_iff.mp h.symm
    exact ⟨s, rfl⟩
  | cons n ns ih =>
    obtain ⟨⟨id, m⟩, rest, rfl, hp, hrest⟩ := List.map_eq_cons_iff.mp h.symm
    obtain ⟨rfl, hm⟩ := Prod.mk.inj hp
    obtain ⟨b', k, hadd, -⟩ := exists_addBuilt b n.id m
    have hplace : b.place (n.id, m) = b' := by rw [Building.place, hadd]; rfl
    obtain ⟨s', hs'⟩ := ih b' hrest.symm
    refine ⟨s', ?_⟩
    rw [Building.buildNodes, ← hm, hadd, List.foldl_cons, hplace]
    exact hs'

omit [HasPorts ν] [ObservedGraph G] in
/-- And only then does it come to its end. -/
theorem answered_of_buildNodes {b b' : Building G} {s s' : σ} {ns : List NodeSnapshot}
    (h : b.buildNodes factory s ns = (.ok b', s')) : ∃ built, Answered factory s ns built := by
  induction ns generalizing b s with
  | nil => exact ⟨[], rfl⟩
  | cons n ns ih =>
    rw [Building.buildNodes] at h
    cases hanswer : (factory n.id s).1 with
    | none =>
      rw [hanswer] at h
      cases h
    | some m =>
      split at h
      · cases h
      · obtain ⟨built, hbuilt⟩ := ih h
        refine ⟨(n.id, m) :: built, ?_⟩
        rw [Answered, answers, hbuilt, hanswer, List.map_cons]

end Answers

/-! ### The links -/

omit [HasPorts ν] [ObservedGraph G] in
/-- **What a link that is made does.** -/
theorem linkEdge_eq_ok {b b' : Building G} {e : SnapshotEdge} (h : b.linkEdge e = .ok b') :
    ∃ k l, b.idMap e.src.1 = some k ∧ b.idMap e.dst.1 = some l ∧
      GraphOps.link b.graph (k, e.src.2) (l, e.dst.2) = .ok b'.graph ∧ b'.idMap = b.idMap := by
  obtain ⟨⟨src, output⟩, dst, input⟩ := e
  rw [Building.linkEdge] at h
  split at h
  · cases h
  · rename_i k hk
    split at h
    · cases h
    · rename_i l hl
      split at h
      · cases h
      · rename_i hlink
        obtain rfl := Except.ok.inj h
        exact ⟨k, l, hk, hl, hlink, rfl⟩

variable {b : Building G} {built : List (NodeId × BuiltNode ν)}

/-- The answer for a node is what is registered under its new id. -/
theorem Built.mem_iff (hb : b.Built built) {id k : NodeId} (hk : b.idMap id = some k)
    {n : BuiltNode ν} : (id, n) ∈ built ↔ node b.graph k = some n := by
  constructor
  · intro hn
    obtain ⟨l, hl, hnode⟩ := hb.registered _ hn
    obtain rfl := Option.some.inj (hk.symm.trans hl)
    exact hnode
  · intro hnode
    obtain ⟨m, hm, hnode'⟩ := hb.known id k hk
    obtain rfl := Option.some.inj (hnode.symm.trans hnode')
    exact hm

/-- **A link is made exactly if the answers have its ports and these go together.** -/
theorem Built.linkEdge_iff (hb : b.Built built) (e : SnapshotEdge) :
    (∃ b', b.linkEdge e = .ok b') ↔ Linkable G built e := by
  constructor
  · rintro ⟨b', h⟩
    obtain ⟨k, l, hk, hl, hlink, -⟩ := linkEdge_eq_ok h
    obtain ⟨o, i, ⟨⟨n, hn, ho⟩, m, hm, hi⟩, hcompatible⟩ :=
      (ObservedGraph.link_ok_iff _ _ _).mp ⟨_, hlink⟩
    exact ⟨n, m, o, i, (hb.mem_iff hk).mpr hn, ho, (hb.mem_iff hl).mpr hm, hi, hcompatible⟩
  · rintro ⟨n, m, o, i, hn, ho, hm, hi, hcompatible⟩
    obtain ⟨k, hk, hnk⟩ := hb.registered _ hn
    obtain ⟨l, hl, hml⟩ := hb.registered _ hm
    obtain ⟨g', hg'⟩ := (ObservedGraph.link_ok_iff b.graph (k, e.src.2) (l, e.dst.2)).mpr
      ⟨o, i, ⟨⟨n, hnk, ho⟩, m, hml, hi⟩, hcompatible⟩
    obtain ⟨⟨src, output⟩, dst, input⟩ := e
    refine ⟨{ b with graph := g' }, ?_⟩
    rw [Building.linkEdge, hk, hl]
    simp only [hg']

theorem Built.linkEdge (hb : b.Built built) {b' : Building G} {e : SnapshotEdge}
    (h : b.linkEdge e = .ok b') : b'.Built built := by
  obtain ⟨k, l, -, -, hlink, hmap⟩ := linkEdge_eq_ok h
  have hnode : node b'.graph = node b.graph := ObservedGraph.node_link hlink
  constructor
  · rw [hmap, hnode]
    exact hb.registered
  · rw [hmap, hnode]
    exact hb.known
  · rw [hmap]
    exact hb.injective
  · rw [hmap, hnode]
    exact hb.onto

/-- **The second loop**, if every link can be made. -/
theorem Built.linkEdges (hb : b.Built built) {es : List SnapshotEdge}
    (h : ∀ e ∈ es, Linkable G built e) :
    ∃ b', b.linkEdges es = .ok b' ∧ es.foldl Building.join b = b' ∧ b'.Built built ∧
      b'.idMap = b.idMap ∧ ∃ made, links b'.graph = links b.graph ++ made ∧
        List.Forall₂ (LinkImage b.idMap) es made := by
  induction es generalizing b with
  | nil => exact ⟨b, rfl, rfl, hb, rfl, [], (List.append_nil _).symm, List.Forall₂.nil⟩
  | cons e es ih =>
    obtain ⟨b₁, hlink⟩ := (hb.linkEdge_iff e).mpr (h e List.mem_cons_self)
    obtain ⟨k, l, hk, hl, hgraph, hmap⟩ := linkEdge_eq_ok hlink
    obtain ⟨b', hlinks, hjoin, hb', hmap', made, hmade, himage⟩ :=
      ih (hb.linkEdge hlink) fun e' he' => h e' (List.mem_cons_of_mem _ he')
    refine ⟨b', ?_, ?_, hb', hmap'.trans hmap, ((k, e.src.2), (l, e.dst.2)) :: made, ?_, ?_⟩
    · rw [Building.linkEdges, hlink]
      exact hlinks
    · rw [List.foldl_cons, Building.join, hlink]
      exact hjoin
    · rw [hmade, ObservedGraph.links_link hgraph, List.append_assoc]
      rfl
    · rw [hmap] at himage
      exact List.Forall₂.cons ⟨hk, rfl, hl, rfl⟩ himage

/-- And only then does it come to its end. -/
theorem Built.linkable_of_linkEdges (hb : b.Built built) {b' : Building G}
    {es : List SnapshotEdge} (h : b.linkEdges es = .ok b') : ∀ e ∈ es, Linkable G built e := by
  induction es generalizing b with
  | nil => exact fun e he => absurd he List.not_mem_nil
  | cons e es ih =>
    rw [Building.linkEdges] at h
    split at h
    · cases h
    · rename_i b₁ hlink
      exact List.forall_mem_cons.mpr ⟨(hb.linkEdge_iff e).mp ⟨b₁, hlink⟩, ih (hb.linkEdge hlink) h⟩

end Building

/-- One more element, as one more value of a function. -/
theorem getElem?_concat_eq_update {α : Type} (xs : List α) (a : α) (k : ℕ) :
    (xs ++ [a])[k]? = Function.update (fun k => xs[k]?) xs.length (some a) k := by
  by_cases hk : k = xs.length
  · rw [hk, List.getElem?_concat_length, Function.update_self]
  · rw [Function.update_of_ne hk]
    by_cases hlt : k < xs.length
    · rw [List.getElem?_append_left hlt]
    · rw [List.getElem?_eq_none (by rw [List.length_append, List.length_singleton]; omega),
        List.getElem?_eq_none (Nat.not_lt.mp hlt)]

/-! ### The whole build -/

section Build

variable {G ν σ : Type} [GraphOps G ν] [HasPorts ν] [ObservedGraph G] {t : TopologySnapshot}
  {config : GraphConfig} {factory : NodeFactory σ ν} {s : σ} {built : List (NodeId × BuiltNode ν)}

/-- The first loop of a build. -/
theorem Answered.foldl_place (h : Answered factory s t.nodes built) (hnodup : t.ids.Nodup) :
    (built.foldl Building.place (Building.new : Building G)).Built built ∧
      ObservedGraph.links (built.foldl Building.place (Building.new : Building G)).graph = [] := by
  have hkeys : (([] ++ built).map Prod.fst).Nodup := by
    rw [List.nil_append, h.map_fst]
    exact hnodup
  obtain ⟨hb, hlinks⟩ := (Building.built_new (G := G)).foldl_place hkeys
  exact ⟨hb, hlinks.trans ObservedGraph.links_new⟩

/-- **A graph that was put together and compiles is the topology, renumbered.** -/
theorem Building.Built.renumbered {b : Building G} (hb : b.Built built)
    (h : Answered factory s t.nodes built)
    (himage : List.Forall₂ (LinkImage b.idMap) t.edges (ObservedGraph.links b.graph)) {g : G}
    (hcompile : GraphOps.compile b.graph config = .ok g) : Renumbered t built g b.idMap := by
  have hnode := ObservedGraph.node_compile hcompile
  have hids : ∀ id, id ∈ t.ids ↔ id ∈ built.map Prod.fst := by
    intro id
    rw [h.map_fst]
    rfl
  constructor
  · intro id
    rw [hids]
    constructor
    · rintro ⟨k, hk⟩
      obtain ⟨n, hn, -⟩ := hb.known id k hk
      exact List.mem_map.mpr ⟨_, hn, rfl⟩
    · intro hid
      obtain ⟨p, hp, rfl⟩ := List.mem_map.mp hid
      obtain ⟨k, hk, -⟩ := hb.registered p hp
      exact ⟨k, hk⟩
  · exact hb.injective
  · rw [hnode]
    exact hb.registered
  · intro k n hn
    rw [hnode] at hn
    obtain ⟨id, hid⟩ := hb.onto k n hn
    exact ⟨id, hid, (hb.mem_iff hid).mpr hn⟩
  · rw [ObservedGraph.links_compile hcompile]
    exact himage

/-- **If every node is built and every link can be made**, it is for `compile` to say; and a graph
that it lets pass is the topology, renumbered. -/
theorem buildGraph_of_linkable (hnodup : t.ids.Nodup) (h : Answered factory s t.nodes built)
    (hlinks : ∀ e ∈ t.edges, Linkable G built e) (g : G) :
    ((buildGraph t config factory s).1 = .ok g ↔
      GraphOps.compile (assembled G built t.edges) config = .ok g) ∧
    ((buildGraph t config factory s).1 = .ok g → ∃ idMap, Renumbered t built g idMap) := by
  obtain ⟨hbuilt, hnone⟩ := h.foldl_place (G := G) hnodup
  obtain ⟨s', hnodes⟩ := Building.buildNodes_of_answered (Building.new : Building G) h
  obtain ⟨b, hedges, hjoin, hb, hmap, made, hmade, himage⟩ := hbuilt.linkEdges hlinks
  have hiff : (buildGraph t config factory s).1 = .ok g ↔
      GraphOps.compile (assembled G built t.edges) config = .ok g := by
    rw [buildGraph, hnodes, assembled, hjoin]
    simp only [hedges]
    rw [Building.compile]
    cases hcompile : GraphOps.compile b.graph config with
    | error message => exact iff_of_false (by rintro ⟨⟩) (by rintro ⟨⟩)
    | ok g' =>
      exact ⟨fun hg => congrArg _ (Except.ok.inj hg), fun hg => congrArg _ (Except.ok.inj hg)⟩
  refine ⟨hiff, fun hg => ⟨b.idMap, ?_⟩⟩
  have hcompile := hiff.mp hg
  rw [assembled, hjoin] at hcompile
  refine hb.renumbered h ?_ hcompile
  rw [hmade, hnone, List.nil_append, hmap]
  exact himage

/-- A build that succeeds has come through both loops. -/
theorem linkable_of_buildGraph (hnodup : t.ids.Nodup) {g : G}
    (h : (buildGraph t config factory s).1 = .ok g) :
    ∃ built, Answered factory s t.nodes built ∧ ∀ e ∈ t.edges, Linkable G built e := by
  rw [buildGraph] at h
  split at h
  · cases h
  · rename_i b s' hnodes
    obtain ⟨built, hbuilt⟩ := Building.answered_of_buildNodes hnodes
    obtain ⟨s₁, hnodes'⟩ := Building.buildNodes_of_answered (Building.new : Building G) hbuilt
    obtain ⟨hb, -⟩ := Prod.mk.inj (hnodes.symm.trans hnodes')
    obtain rfl := Except.ok.inj hb
    split at h
    · cases h
    · rename_i b' hedges
      exact ⟨built, hbuilt, (hbuilt.foldl_place hnodup).1.linkable_of_linkEdges hedges⟩

/-- **A build succeeds exactly if the factory builds every node, every link is between nodes of the
topology and can be made, and the graph compiles**; and then the graph is the topology,
renumbered. -/
theorem buildGraph_iff_renumbered (hnodup : t.ids.Nodup) :
    ((∃ g : G, (buildGraph t config factory s).1 = .ok g) ↔
      ∃ built, Answered factory s t.nodes built ∧
        (∀ e ∈ t.edges, e.src.1 ∈ t.ids ∧ e.dst.1 ∈ t.ids) ∧
        (∀ e ∈ t.edges, Linkable G built e) ∧
        ∃ g, GraphOps.compile (assembled G built t.edges) config = .ok g) ∧
    ∀ g : G, (buildGraph t config factory s).1 = .ok g →
      ∃ built idMap, Answered factory s t.nodes built ∧ Renumbered t built g idMap := by
  refine ⟨⟨?_, ?_⟩, ?_⟩
  · rintro ⟨g, hg⟩
    obtain ⟨built, hbuilt, hlinks⟩ := linkable_of_buildGraph hnodup hg
    have hmem : ∀ {id : NodeId} {n : BuiltNode ν}, (id, n) ∈ built → id ∈ t.ids := by
      intro id n hn
      rw [TopologySnapshot.ids, ← hbuilt.map_fst]
      exact List.mem_map.mpr ⟨_, hn, rfl⟩
    refine ⟨built, hbuilt, fun e he => ?_, hlinks, g,
      (buildGraph_of_linkable hnodup hbuilt hlinks g).1.mp hg⟩
    obtain ⟨n, m, o, i, hn, -, hm, -⟩ := hlinks e he
    exact ⟨hmem hn, hmem hm⟩
  · rintro ⟨built, hbuilt, -, hlinks, g, hg⟩
    exact ⟨g, (buildGraph_of_linkable hnodup hbuilt hlinks g).1.mpr hg⟩
  · intro g hg
    obtain ⟨built, hbuilt, hlinks⟩ := linkable_of_buildGraph hnodup hg
    obtain ⟨idMap, hidMap⟩ := (buildGraph_of_linkable hnodup hbuilt hlinks g).2 hg
    exact ⟨built, idMap, hbuilt, hidMap⟩

end Build

/-- The laws have a model. -/
instance {ν : Type} [HasPorts ν] : ObservedGraph (CheckedGraph ν) where
  node g k := g.slots[k]?
  links := CheckedGraph.links
  compatible o i := o.channels = i.channels ∧ o.sampleFormat = i.sampleFormat
  node_new _ := rfl
  links_new := rfl
  fresh_addNode g _ := List.getElem?_eq_none le_rfl
  node_addNode g n := by
    funext k
    exact getElem?_concat_eq_update g.slots (.plain n) k
  links_addNode _ _ := rfl
  fresh_addSink g _ := List.getElem?_eq_none le_rfl
  node_addSink g n := by
    funext k
    exact getElem?_concat_eq_update g.slots (.sink n) k
  links_addSink _ _ := rfl
  link_ok_iff := PortedGraph.link_ok_iff
  node_link h := by
    rw [(CheckedGraph.link_eq_ok h).1]
  links_link h := by
    rw [(CheckedGraph.link_eq_ok h).1]
  node_compile h := by
    obtain rfl := Except.ok.inj h
    rfl
  links_compile h := by
    obtain rfl := Except.ok.inj h
    rfl

/-- A generator and a gain, with ids that leave gaps. -/
def gappedSnapshot : TopologySnapshot := ⟨[⟨9, [], []⟩, ⟨5, [], []⟩], [⟨(9, 0), (5, 0)⟩]⟩

/-- The generator is a plain node and the gain a sink. -/
def gappedFactory : NodeFactory Unit DspNode
  | 9, s => (some (.plain (.tone .sine ⟨0⟩ ⟨0⟩ 48000 1)), s)
  | 5, s => (some (.sink (.gain ⟨0⟩)), s)
  | _, s => (none, s)

theorem buildGraph_iff_renumbered_gapped :
    gappedSnapshot.ids.Nodup ∧
      ∃ (g : CheckedGraph DspNode) (built : List (NodeId × BuiltNode DspNode))
        (idMap : NodeId → Option NodeId),
        (buildGraph gappedSnapshot ⟨64, 48000, 1⟩ gappedFactory ()).1 = .ok g ∧
          Answered gappedFactory () gappedSnapshot.nodes built ∧
          Renumbered gappedSnapshot built g idMap := by
  have hnodup : gappedSnapshot.ids.Nodup := by decide
  have hbuild : (buildGraph (G := CheckedGraph DspNode) gappedSnapshot ⟨64, 48000, 1⟩
      gappedFactory ()).1 = .ok _ := rfl
  obtain ⟨built, idMap, h⟩ := (buildGraph_iff_renumbered hnodup).2 _ hbuild
  exact ⟨hnodup, _, built, idMap, hbuild, h⟩

end SonicBrew
