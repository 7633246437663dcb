import MobilityDuck.IndexSearchOps
import MobilityDuck.Lib.Buffer
import MobilityDuck.Lib.Chain
import MobilityDuck.EntrySegment
import MobilityDuck.EntryStore
import MobilityDuck.Index
import MobilityDuck.IndexRuns
import MobilityDuck.Lib.Pull
import MobilityDuck.Lib.TopK
import MobilityDuck.Table
import MobilityDuck.IndexScan
import MobilityDuck.GatherNearest
import MobilityDuck.Transaction
import MobilityDuck.IndexJoin
import MobilityDuck.BoxNormalisation
import MobilityDuck.Expression
import MobilityDuck.OptimizeScan
import MobilityDuck.ScanColumn
import MobilityDuck.ScanConstant
import MobilityDuck.ScanPredicate
import MobilityDuck.Lib.Select
import MobilityDuck.ScanProjection
import MobilityDuck.OptimizeRefusal
import MobilityDuck.Lib.NestedLoop
import MobilityDuck.OptimizeJoin
import MobilityDuck.IndexAnswers
import MobilityDuck.Lib.Raise
import MobilityDuck.MeosThread
import MobilityDuck.DatacubeBytes
import MobilityDuck.InflateGzip
import MobilityDuck.Datacube
import MobilityDuck.Lib.Json
import MobilityDuck.TileMetadata
import MobilityDuck.Raster
import MobilityDuck.RasterTile
import MobilityDuck.RasterMetadata
import MobilityDuck.RasterRoundTrip
import MobilityDuck.Lib.Ledger
import MobilityDuck.MeosAggregate
import MobilityDuck.AggregateRelease
import MobilityDuck.AggregateGather
import MobilityDuck.AggregateWindow
import MobilityDuck.NearestRuns
import MobilityDuck.NearestRead
import MobilityDuck.Lib.NullOrder
import MobilityDuck.OptimizeTopN
import MobilityDuck.BoxNormalisation
import MobilityDuck.IndexErrors
import MobilityDuck.Lib.TimeLine
import MobilityDuck.TimeUtil
import MobilityDuck.Lib.JsonCompact
import MobilityDuck.TemporalParquet
import MobilityDuck.Lib.WorkPool
import MobilityDuck.TemporalParquetTool
import MobilityDuck.CreateIndex
import MobilityDuck.NearestRank
import MobilityDuck.TableFunction
import MobilityDuck.TableFunctionRows
import MobilityDuck.TableFunctionRelease
import MobilityDuck.Lib.Rewriting
import MobilityDuck.Lib.Window
import MobilityDuck.Plan
import MobilityDuck.OptimizeRecursive
import MobilityDuck.OptimizePlan
import MobilityDuck.OptimizeSound
import MobilityDuck.OptimizePasses
import MobilityDuck.Lib.Dictionary
import MobilityDuck.TemporalParquetFooter
import MobilityDuck.Lib.Books
import MobilityDuck.Lib.ListVector
import MobilityDuck.ListAnswer
import MobilityDuck.ListRows
import MobilityDuck.ListMake
import MobilityDuck.Lib.Forwarding
import MobilityDuck.Catalog
import MobilityDuck.CatalogProjection
import MobilityDuck.CatalogForms
import MobilityDuck.CatalogTail
import MobilityDuck.CatalogSurface
import MobilityDuck.Lib.UnifiedFormat
import MobilityDuck.Pcschema
import MobilityDuck.Lib.ListBuffer
import MobilityDuck.SpatialArray
import MobilityDuck.GeometryCrs
