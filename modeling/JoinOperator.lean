import JoinOperator.RadixJoin.BitCount
import JoinOperator.RadixJoin.Capacity
import JoinOperator.RadixJoin.PushedResults
import JoinOperator.Scheduler.Shutdown
import JoinOperator.Planner.PredicateOrder
import JoinOperator.Planner.TotalPlanner
import JoinOperator.Planner.CombinationCalls
import JoinOperator.Planner.EarlyPredicates
import JoinOperator.Planner.JoinSequences
import JoinOperator.Planner.JoinSymmetry
import JoinOperator.Planner.ComparedSlots
import JoinOperator.Planner.EqualFilters
import JoinOperator.Planner.OrderedRanges
import JoinOperator.Planner.EnumerationDivisors
import JoinOperator.Executor.RadixJoiner
import JoinOperator.Executor.ConstructedQueries
import JoinOperator.Executor.ScratchBounds
import JoinOperator.Executor.Checksum
import JoinOperator.Executor.FilterConstants
import JoinOperator.PipeIO.InputRoom
import JoinOperator.QueryText.RoundTrip
import JoinOperator.QueryText.Batch
import JoinOperator.QueryText.WrittenNumbers
import JoinOperator.Executor.LeftDeepRuns
import JoinOperator.Executor.Packages
import JoinOperator.Receiver.StartUp
import JoinOperator.Harness.CheckedRuns
import JoinOperator.Reference.ReversedChains
