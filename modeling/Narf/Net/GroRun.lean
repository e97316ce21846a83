import Narf.Net.GroFrame

namespace Narf.Net.Gro
open List Option

/-! Whole runs of the engine: the frames offered and the points at which it is flushed are arbitrary.
    Every frame delivered is a group of frames offered; ungrouped, they are in the order of their flow. -/

/-! ## Runs -/
inductive Event where
  | offer (iface : String) (frame : List Byte)
  | flush
/-- The engine, the frames offered to it so far and those it has put out, each with the interface it came in on. (The
    caller hands the stack those that a frame evicts under that frame's interface.) -/
structure Session where
  held : List Held
  offered : List Released
  delivered : List Released
def passed (iface : String) (frame : List Byte) : Disposition → List Released
  | .Held => []
  | .Deliver _ => [(iface,frame)]
/-- The flows forced out by a frame are delivered before it. -/
def Session.step (s : Session) : Event → Session
  | .offer iface frame =>
    let (held,flushed,d) := Gro.offer s.held iface frame
    ⟨held,s.offered ++ [(iface,frame)],s.delivered ++ flushed ++ passed iface frame d⟩
  | .flush => ⟨[],s.offered,s.delivered ++ Gro.flush s.held⟩
def Session.start : Session := ⟨[],[],[]⟩

/-! ## Groups -/
/-- A frame for the stack, and the frames it was made from. -/
structure Group where
  iface : String
  out : List Byte
  parts : List (List Byte)
def Group.released (g : Group) : Released := (g.iface,g.out)
def Group.unpack (g : Group) : List Released := g.parts.map (fun f => (g.iface,f))
/-- One frame, unchanged, or several merged. -/
def Group.Faithful (g : Group) : Prop := g.parts = [g.out] ∨ Merged g.parts g.out
/-- The frames of one flow on one interface; those without a flow are a flow of their own. -/
def stream (iface : String) (flow : Option FlowKey) (frames : List Released) : List Released :=
  frames.filter (fun r => r.1 = iface ∧ flow_key_of r.2 = flow)
lemma stream_append (iface : String) (flow : Option FlowKey) (a b : List Released) :
    stream iface flow (a ++ b) = stream iface flow a ++ stream iface flow b := filter_append ..
/-- Frames that are in order in every flow are the same frames. -/
lemma perm_of_streams {a b : List Released} (same : ∀ iface flow, stream iface flow a = stream iface flow b) : a.Perm b := by
  rw [perm_iff_count]
  intro r
  have counts := congrArg (List.count r) (same r.1 (flow_key_of r.2))
  simp only [stream] at counts
  rwa [count_filter (by simp),count_filter (by simp)] at counts

/-! ## Flows in progress -/
structure Slot where
  held : Held
  first : List Byte
  rest : List (List Byte)
  holds : Holds held first rest
lemma finalize_iface (h : Held) : (finalize h).1 = h.iface := by
  unfold finalize
  split <;> rfl
/-- What becomes of the flow when it is flushed. -/
def Slot.group (x : Slot) : Group := ⟨x.held.iface,(finalize x.held).2,x.first :: x.rest⟩
lemma Slot.released (x : Slot) : x.group.released = finalize x.held :=
  Prod.ext (finalize_iface x.held).symm rfl
lemma Slot.faithful (x : Slot) : x.group.Faithful := by
  obtain ⟨h,f,rest,holds⟩ := x
  cases rest with
  | nil =>
    left
    simp [Slot.group,finalize_single holds]
  | cons g rest =>
    right
    exact finalize_merged holds (by simp)
/-- The flow is the one of this interface and key. -/
def Slot.Is (x : Slot) (iface : String) (flow : Option FlowKey) : Prop := x.held.iface = iface ∧ some x.held.key = flow
lemma Slot.flow_of (x : Slot) {f : List Byte} (mem : f ∈ x.first :: x.rest) : flow_key_of f = some x.held.key := by
  have keys : key_of f = key_of x.first := congrArg Signature.key (x.holds.signature_of mem)
  rw [(x.holds.eligible f mem).1.flow,keys,x.holds.key]
section Streams
variable {iface : String} {flow : Option FlowKey} {x : Slot}
lemma Slot.stream_other (other : ¬ x.Is iface flow) : stream iface flow x.group.unpack = [] := by
  rw [stream,filter_eq_nil_iff]
  intro r mem
  obtain ⟨f,part,rfl⟩ := mem_map.mp mem
  simp only [x.flow_of part,decide_eq_true_eq]
  exact other
lemma streams_other {slots : List Slot} (others : ∀ y ∈ slots, ¬ y.Is iface flow) :
    stream iface flow ((slots.map Slot.group).flatMap Group.unpack) = [] := by
  induction slots with
  | nil => rfl
  | cons y slots ih =>
    rw [map_cons,flatMap_cons,stream_append,Slot.stream_other (others y mem_cons_self),ih (fun z mem => others z (mem_cons_of_mem y mem))]
    rfl
end Streams

/-! ## One step -/
/-- The frames delivered are groups, those held are slots, and together they are the frames offered,
    in the order of each flow. -/
structure Tracks (held : List Held) (offered delivered : List Released) (groups : List Group) (slots : List Slot) : Prop where
  held : held = slots.map Slot.held
  distinct : slots.Pairwise (fun x y => ¬ y.Is x.held.iface (some x.held.key))
  delivered : delivered = groups.map Group.released
  faithful : ∀ g ∈ groups, g.Faithful
  order : ∀ iface flow, stream iface flow offered = stream iface flow ((groups ++ slots.map Slot.group).flatMap Group.unpack)
lemma Slot.is_symm {x y : Slot} (other : ¬ y.Is x.held.iface (some x.held.key)) : ¬ x.Is y.held.iface (some y.held.key) :=
  fun same => other ⟨same.1.symm,same.2.symm⟩
section Steps
variable {held before after : List Held} {h : Held} {offered delivered : List Released} {groups : List Group}
variable {flushed : List Released} {slots left right : List Slot} {x : Slot} {iface : String} {frame : List Byte}
lemma Tracks.others (tracks : Tracks held offered delivered groups (left ++ x :: right)) {flow : Option FlowKey}
    (here : x.Is iface flow) : ∀ y ∈ left ++ right, ¬ y.Is iface flow := by
  obtain ⟨rfl,rfl⟩ := here
  have distinct := pairwise_append.mp tracks.distinct
  intro y mem
  rcases mem_append.mp mem with early | late
  · exact Slot.is_symm (distinct.2.2 y early x mem_cons_self)
  · exact rel_of_pairwise_cons distinct.2.1 late
lemma Tracks.start : Tracks [] [] [] [] [] :=
  ⟨rfl,.nil,rfl,nofun,fun _ _ => rfl⟩
lemma Tracks.release (tracks : Tracks held offered delivered groups (left ++ x :: right)) :
    Tracks ((left ++ right).map Slot.held) offered (delivered ++ [finalize x.held]) (groups ++ [x.group]) (left ++ right) where
  held := rfl
  distinct := tracks.distinct.sublist ((sublist_cons_self x right).append_left left)
  delivered := by rw [tracks.delivered,map_append,map_singleton,x.released]
  faithful g mem := by
    rcases mem_append.mp mem with old | new
    · exact tracks.faithful g old
    · cases mem_singleton.mp new
      exact x.faithful
  order iface flow := by
    rw [tracks.order]
    simp only [map_append,map_cons,flatMap_append,flatMap_cons,flatMap_nil,append_nil,stream_append,append_assoc]
    by_cases here : x.Is iface flow
    · have others := tracks.others here
      rw [streams_other (fun y mem => others y (mem_append_left right mem)),
        streams_other (fun y mem => others y (mem_append_right left mem))]
      rfl
    · rw [Slot.stream_other here]
      rfl
lemma Tracks.pass (tracks : Tracks held offered delivered groups slots) (idle : ∀ y ∈ slots, ¬ y.Is iface (flow_key_of frame)) :
    Tracks held (offered ++ [(iface,frame)]) (delivered ++ [(iface,frame)]) (groups ++ [⟨iface,frame,[frame]⟩]) slots where
  held := tracks.held
  distinct := tracks.distinct
  delivered := by
    rw [tracks.delivered,map_append]
    rfl
  faithful g mem := by
    rcases mem_append.mp mem with old | new
    · exact tracks.faithful g old
    · cases mem_singleton.mp new
      exact .inl rfl
  order iface' flow := by
    have alone : (⟨iface,frame,[frame]⟩ : Group).unpack = [(iface,frame)] := rfl
    rw [stream_append,tracks.order]
    simp only [flatMap_append,flatMap_cons,flatMap_nil,append_nil,stream_append,append_assoc,alone]
    by_cases here : iface = iface' ∧ flow_key_of frame = flow
    · obtain ⟨rfl,rfl⟩ := here
      rw [streams_other idle,append_nil,nil_append]
    · have none : stream iface' flow [(iface,frame)] = [] := by
        rw [stream,filter_eq_nil_iff]
        intro r mem
        cases mem_singleton.mp mem
        simpa using here
      rw [none,append_nil,nil_append]
lemma Tracks.begin (tracks : Tracks held offered delivered groups slots)
    (single : x.first = frame ∧ x.rest = []) (here : x.held.iface = iface) (idle : ∀ y ∈ slots, ¬ y.Is iface (flow_key_of frame)) :
    Tracks (held ++ [x.held]) (offered ++ [(iface,frame)]) delivered groups (slots ++ [x]) where
  held := by
    rw [tracks.held,map_append]
    rfl
  distinct := by
    rw [pairwise_append]
    refine ⟨tracks.distinct,pairwise_singleton _ _,?_⟩
    intro y mem z new
    cases mem_singleton.mp new
    have other := idle y mem
    rw [x.flow_of (f := frame) (by rw [single.1]; exact mem_cons_self),← here] at other
    exact Slot.is_symm other
  delivered := tracks.delivered
  faithful := tracks.faithful
  order iface' flow := by
    have alone : x.group.unpack = [(iface,frame)] := by
      simp [Slot.group,Group.unpack,single.1,single.2,here,map_cons,map_nil]
    rw [stream_append,tracks.order]
    simp only [map_append,map_cons,map_nil,flatMap_append,flatMap_cons,flatMap_nil,append_nil,stream_append,append_assoc,alone]
lemma Tracks.join (x' : Slot) (tracks : Tracks held offered delivered groups (left ++ x :: right))
    (same : x'.held.iface = x.held.iface ∧ x'.held.key = x.held.key) (first : x'.first = x.first)
    (rest : x'.rest = x.rest ++ [frame]) (here : x.held.iface = iface) :
    Tracks ((left ++ x' :: right).map Slot.held) (offered ++ [(iface,frame)]) delivered groups (left ++ x' :: right) where
  held := rfl
  distinct := by
    have distinct := tracks.distinct
    simp only [pairwise_append,pairwise_cons,mem_cons,forall_eq_or_imp,Slot.Is,same.1,same.2] at distinct ⊢
    exact distinct
  delivered := tracks.delivered
  faithful := tracks.faithful
  order iface' flow := by
    have parts : x'.group.unpack = x.group.unpack ++ [(iface,frame)] := by
      simp only [Slot.group,Group.unpack,first,rest,same.1,here,← cons_append,map_append,map_cons,map_nil]
    rw [stream_append,tracks.order]
    simp only [map_append,map_cons,flatMap_append,flatMap_cons,stream_append,append_assoc,parts]
    by_cases this : x.Is iface' flow
    · have others := tracks.others this
      rw [streams_other (fun y mem => others y (mem_append_right left mem)),nil_append,append_nil]
    · have none : stream iface' flow [(iface,frame)] = [] := by
        have empty := @Slot.stream_other iface' flow x' (by rw [Slot.Is,same.1,same.2]; exact this)
        rw [parts,stream_append] at empty
        exact (append_eq_nil_iff.mp empty).2
      rw [none,append_nil,nil_append]

/-! ## The engine -/
variable {key : FlowKey}
lemma position_none (missing : position key iface (slots.map Slot.held) = none) : ∀ y ∈ slots, ¬ y.Is iface (some key) := by
  induction slots with
  | nil => exact nofun
  | cons z slots ih =>
    rw [map_cons,position] at missing
    split at missing
    · cases missing
    next other =>
    intro y mem
    rcases mem_cons.mp mem with rfl | later
    · rintro ⟨same,key'⟩
      exact other ⟨some.inj key',same⟩
    · exact ih (map_eq_none_iff.mp missing) y later
lemma position_some (found : position key iface (slots.map Slot.held) = some (before,h,after)) :
    ∃ left x right, slots = left ++ x :: right ∧ before = left.map Slot.held ∧ h = x.held ∧ after = right.map Slot.held ∧
      x.Is iface (some key) := by
  induction slots generalizing before with
  | nil => cases found
  | cons z slots ih =>
    rw [map_cons,position] at found
    split at found
    · next here =>
      cases found
      exact ⟨[],z,slots,rfl,rfl,rfl,rfl,here.2,congrArg some here.1⟩
    · obtain ⟨⟨before',h',after'⟩,later,same⟩ := map_eq_some_iff.mp found
      cases same
      obtain ⟨left,x,right,rfl,rfl,rfl,rfl,here⟩ := ih later
      exact ⟨z :: left,x,right,rfl,rfl,rfl,rfl,here⟩
/-- What is held and delivered after the frame is tracked again. -/
def Tracked (iface : String) (frame : List Byte) (offered delivered : List Released)
    (out : List Held × List Released × Disposition) : Prop :=
  ∃ groups slots, Tracks out.1 (offered ++ [(iface,frame)]) (delivered ++ out.2.1 ++ passed iface frame out.2.2) groups slots
lemma Tracks.tracked {held' : List Held} {delivered' : List Released} {out : List Held × List Released × Disposition}
    (tracks : Tracks held' (offered ++ [(iface,frame)]) delivered' groups slots) (kept : out.1 = held')
    (sent : delivered ++ out.2.1 ++ passed iface frame out.2.2 = delivered') : Tracked iface frame offered delivered out := by
  subst kept sent
  exact ⟨groups,slots,tracks⟩
/-- A frame that is not held flushes its flow before it. -/
lemma Tracks.deliver (tracks : Tracks held offered delivered groups slots) (flow : flow_key_of frame = some key) (verified : Bool) :
    Tracked iface frame offered delivered (match position key iface held with
      | some (before,h,after) => (before ++ after,[finalize h],.Deliver verified)
      | none => (held,[],.Deliver verified)) := by
  rw [tracks.held]
  split
  · next before h after found =>
    obtain ⟨left,x,right,rfl,rfl,rfl,rfl,here⟩ := position_some found
    have idle := tracks.others here
    rw [← flow] at idle
    exact (tracks.release.pass idle).tracked map_append.symm rfl
  · next missing =>
    have idle := position_none missing
    rw [← flow] at idle
    exact (tracks.pass idle).tracked tracks.held.symm (by rw [append_nil]; rfl)
lemma start_tracked (tracks : Tracks held offered (delivered ++ flushed) groups slots) (eligible : Eligible frame)
    (full : payload_of frame ≠ []) (idle : ∀ y ∈ slots, ¬ y.Is iface (flow_key_of frame)) :
    Tracked iface frame offered delivered (start held iface frame (parsed_of frame) flushed) := by
  rw [start]
  split
  · exact ⟨_,slots,tracks.pass idle⟩
  · let fresh : Slot := ⟨_,frame,[],Holds.fresh eligible full iface⟩
    by_cases room : MAX_FLOWS ≤ held.length
    · -- the oldest flow makes room
      cases slots with
      | nil =>
        rw [tracks.held] at room
        exact absurd room (by decide)
      | cons oldest slots =>
        have evicted := (show Tracks held offered (delivered ++ flushed) groups ([] ++ oldest :: slots) from tracks).release
        have begun := evicted.begin (x := fresh) ⟨rfl,rfl⟩ rfl fun y mem => idle y (mem_cons_of_mem oldest mem)
        rw [if_pos room,tracks.held]
        exact begun.tracked rfl (by simp [passed])
    · have begun := tracks.begin (x := fresh) ⟨rfl,rfl⟩ rfl idle
      rw [if_neg room]
      exact begun.tracked rfl (by simp [passed])
lemma offer_tracked (tracks : Tracks held offered delivered groups slots) (iface : String) (frame : List Byte) :
    Tracked iface frame offered delivered (offer held iface frame) := by
  rw [offer]
  split
  · next bad =>
    cases flow : flow_key_of frame with
    | some key =>
      rw [bind_some]
      exact tracks.deliver flow false
    | none =>
      have idle : ∀ y ∈ slots, ¬ y.Is iface (flow_key_of frame) := by
        rintro y - ⟨-,same⟩
        rw [flow] at same
        cases same
      exact (tracks.pass idle).tracked rfl (by rw [bind_none,append_nil]; rfl)
  · next p parsed =>
    obtain ⟨eligible,rfl⟩ := parse_eligible parsed
    have flow := eligible.flow
    dsimp only
    split
    · exact tracks.deliver flow true
    next data =>
    have full : payload_of frame ≠ [] := by
      intro empty
      exact data (.inr (.inl (by rw [parsed_of,empty]; rfl)))
    split
    · next before h after found =>
      rw [tracks.held] at found
      obtain ⟨left,x,right,rfl,rfl,rfl,rfl,here⟩ := position_some found
      split
      · next merges =>
        have same : x.held.key = key_of frame := some.inj here.2
        let joined : Slot := ⟨_,x.first,_,x.holds.merge eligible full same merges⟩
        have tracks' := tracks.join joined ⟨rfl,rfl⟩ rfl rfl here.1
        split
        · exact tracks'.release.tracked map_append.symm (by simp only [passed,append_nil]; rfl)
        · exact tracks'.tracked (by rw [map_append]; rfl) (by simp only [passed,append_nil])
      · have idle := tracks.others here
        rw [parsed_of,← flow] at idle
        rw [← map_append]
        exact start_tracked tracks.release eligible full idle
    · next missing =>
      rw [tracks.held] at missing
      have idle := position_none missing
      rw [parsed_of,← flow] at idle
      have tracks' : Tracks held offered (delivered ++ []) groups slots := by
        rw [append_nil]
        exact tracks
      exact start_tracked tracks' eligible full idle
lemma Tracks.flush (tracks : Tracks held offered delivered groups slots) :
    Tracks [] offered (delivered ++ Gro.flush held) (groups ++ slots.map Slot.group) [] where
  held := rfl
  distinct := .nil
  delivered := by
    rw [tracks.delivered,Gro.flush,tracks.held,List.map_append,List.map_map,List.map_map]
    congr 2
    funext x
    exact x.released.symm
  faithful g mem := by
    rcases mem_append.mp mem with old | new
    · exact tracks.faithful g old
    · obtain ⟨x,-,rfl⟩ := mem_map.mp new
      exact x.faithful
  order iface flow := by rw [tracks.order,map_nil,append_nil]
end Steps

/-! ## Every run -/
lemma tracks_run (events : List Event) :
    ∃ groups slots, Tracks (events.foldl Session.step .start).held (events.foldl Session.step .start).offered
      (events.foldl Session.step .start).delivered groups slots := by
  suffices run : ∀ s : Session, (∃ groups slots, Tracks s.held s.offered s.delivered groups slots) →
      ∃ groups slots, Tracks (events.foldl Session.step s).held (events.foldl Session.step s).offered
        (events.foldl Session.step s).delivered groups slots from run .start ⟨[],[],.start⟩
  induction events with
  | nil => exact fun s tracks => tracks
  | cons e events ih =>
    rintro s ⟨groups,slots,tracks⟩
    refine ih _ ?_
    cases e with
    | offer iface frame => exact offer_tracked tracks iface frame
    | flush => exact ⟨_,_,tracks.flush⟩
/-- A frame that is not eligible is a group of its own, and never waits. -/
lemma alone_of_not_eligible {groups : List Group} {slots : List Slot} {r : Released} (faithful : ∀ g ∈ groups, g.Faithful)
    (offered : r ∈ (groups ++ slots.map Slot.group).flatMap Group.unpack) (bad : ¬ Eligible r.2) : ⟨r.1,r.2,[r.2]⟩ ∈ groups := by
  obtain ⟨g,mem,part⟩ := mem_flatMap.mp offered
  obtain ⟨f,inside,rfl⟩ := mem_map.mp part
  rcases mem_append.mp mem with sent | waits
  · rcases faithful g sent with single | merged
    · rw [single] at inside
      cases mem_singleton.mp inside
      rw [← single]
      exact sent
    · exact absurd (merged.eligible f inside) bad
  · obtain ⟨x,-,rfl⟩ := mem_map.mp waits
    exact absurd (x.holds.eligible f inside).1 bad
/-- Every frame the stack gets is one offered, unchanged, or several offered one after the other, merged. What has been
    delivered, and behind it what a flush would deliver, is every frame offered once, in the order of its flow. A frame
    with a bad checksum is delivered, unchanged. -/
theorem gro_transparent (events : List Event) : ∃ groups waiting : List Group,
      (events.foldl Session.step .start).delivered = groups.map Group.released ∧
      flush (events.foldl Session.step .start).held = waiting.map Group.released ∧ (∀ g ∈ groups ++ waiting, g.Faithful) ∧
      (∀ iface flow, stream iface flow (events.foldl Session.step .start).offered =
        stream iface flow ((groups ++ waiting).flatMap Group.unpack)) ∧
      (events.foldl Session.step .start).offered.Perm ((groups ++ waiting).flatMap Group.unpack) ∧
      (∀ r ∈ (events.foldl Session.step .start).offered, ¬ Eligible r.2 → ⟨r.1,r.2,[r.2]⟩ ∈ groups) := by
  obtain ⟨groups,slots,tracks⟩ := tracks_run events
  have same := perm_of_streams tracks.order
  refine ⟨groups,slots.map Slot.group,tracks.delivered,?_,tracks.flush.faithful,tracks.order,same,?_⟩
  · rw [flush,tracks.held,List.map_map,List.map_map]
    congr 1
    funext x
    exact x.released.symm
  · intro r member bad
    exact alone_of_not_eligible tracks.faithful (same.mem_iff.mp member) bad
end Narf.Net.Gro
