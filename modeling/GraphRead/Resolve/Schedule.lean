import GraphRead.Resolve.Level
/-!
Schedules: when the reads of a resolution are issued.

The tasks of a level are executed at most `limit` at a time. A task issues all its reads at once.
If every read takes equally long, the tasks of a level come in waves, and a wave in which a task
fails is the last one. If reads take no time, each task has its answers before the next one starts,
and nothing is read after the first failure.
-/

namespace GraphRead

namespace Task

/-- The reads of a task. -/
def reads (maxBindValues : Option Nat) (task : Task) : List Read := task.plan.reads maxBindValues

/-- Whether the execution of a task succeeds. -/
def succeeds (connector : Connector) (maxBindValues : Option Nat) (task : Task) : Bool :=
  (task.plan.execute connector maxBindValues).isOk

end Task

/-- The reads of tasks that are executed one after the other, up to the first failure. -/
def sequentialReads (connector : Connector) (maxBindValues : Option Nat) : List Task → List Read
  | [] => []
  | task :: rest =>
    Read.untilFailure connector (task.reads maxBindValues) ++
      if task.succeeds connector maxBindValues then sequentialReads connector maxBindValues rest
      else []

/-- The tasks of some levels in the groups that are under way together. -/
def waves (limit : Nat) (levels : List (List Task)) : List (List Task) :=
  levels.flatMap (chunks limit)

/-- The waves up to the first one in which a task fails, which is included. -/
def wavesUntilFailure (connector : Connector) (maxBindValues : Option Nat) :
    List (List Task) → List (List Task)
  | [] => []
  | wave :: rest =>
    if wave.all fun task => task.succeeds connector maxBindValues then
      wave :: wavesUntilFailure connector maxBindValues rest
    else [wave]

/-- The waves that have started by a time, if every read takes the given time and the first wave
starts at zero. -/
def startedWaves (latency time : Nat) (waves : List (List Task)) : List (List Task) :=
  (waves.zipIdx.filter fun (_, place) => place * latency ≤ time).map Prod.fst

/-- The reads of some waves. -/
def waveReads (maxBindValues : Option Nat) (waves : List (List Task)) : List Read :=
  waves.flatten.flatMap fun task => task.reads maxBindValues

end GraphRead
