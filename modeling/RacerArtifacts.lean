import RacerArtifacts.SimLaunch
import RacerArtifacts.SimOrder
import RacerArtifacts.SimLedger
import RacerArtifacts.SimLoads
import RacerArtifacts.SimReset
import RacerArtifacts.MramOrdering
import RacerArtifacts.MramRounds
import RacerArtifacts.MramChannels
import RacerArtifacts.MramEnergies
import RacerArtifacts.MramLegality
import RacerArtifacts.MramIndependence
import RacerArtifacts.MramMapping
import RacerArtifacts.MramTurnaround
import RacerArtifacts.MarssEditDistance
import RacerArtifacts.MarssLenet
import RacerArtifacts.MarssPageRank
import RacerArtifacts.MarssStringMatch
import RacerArtifacts.SimMask
import RacerArtifacts.SimMonotone
import RacerArtifacts.SimEpochs
import RacerArtifacts.SimExpansion
import RacerArtifacts.SimChecks
import RacerArtifacts.MarssMmul
import RacerArtifacts.MarssRgb2gray
import RacerArtifacts.MramCapacity
import RacerArtifacts.MarssEditBuffers
import RacerArtifacts.LibDoubling
import RacerArtifacts.MarssLayers
import RacerArtifacts.MramClient
import RacerArtifacts.MramCompletion
import RacerArtifacts.MramTraceAnswers
import RacerArtifacts.MramIniText
import RacerArtifacts.MramStatistics
import RacerArtifacts.SimTables
import RacerArtifacts.MarssNetwork
import RacerArtifacts.MarssPointwise
import RacerArtifacts.MarssThreads
